import Mathlib.Algebra.Order.Field.Power
import Mathlib.Data.Rat.Cast.Order
import Mathlib.Tactic.FieldSimp
import Mathlib.Tactic.Linarith
import Mathlib.Tactic.NormNum
import Mathlib.Tactic.Positivity
import Mathlib.Tactic.Ring
import ToyCpu.Decimal.Numeral
import ToyCpu.Decimal.Shortest

/-!
# Rounding to a word

Every word has an interval of quotients around it. This file proves that the interval is what its
name says: a quotient lies in the interval of the word that it is rounded to, and in no other. The
second half comes from the first: each interval ends where the next one begins, halfway between the
two words, so the words up to infinity share out all magnitudes between them.

* `RoundsTo` — a quotient lies in the interval of a word.
* `exists_word_holds` — a quotient lies in the interval of the word that it is rounded to.
* `units_succ`, `interval_low_succ` — the next word, and the point halfway to it.
* `RoundsTo.unique` — a quotient lies in one interval only.
* `IsRounded` — a word, infinity's included, is what a magnitude is rounded to.
* `isRounded_nearestWord`, `isRounded_scaledWord` — the rounding of quotients and of decimals.
* `RoundsTo.scaledWord_eq`, `roundsTo_of_scaledWord` — decimals that are rounded to finite words.
-/

namespace ToyCpu

open Binary64 Decimal

/-! ### Intervals of quotients -/

namespace Decimal

/-- A quotient, in the interval's units, lies in the interval. -/
def Interval.Contains (interval : Interval) (y : ℚ) : Prop :=
  if interval.closed then interval.low ≤ y ∧ y ≤ interval.high
  else interval.low < y ∧ y < interval.high

theorem Interval.holds_iff (interval : Interval) (num : Nat) {den : Nat} (hden : 0 < den) :
    interval.holds num den = true ↔ interval.Contains (num / den) := by
  have hq : (0 : ℚ) < den := by exact_mod_cast hden
  unfold Interval.holds Interval.Contains
  cases interval.closed
  · simp only [Bool.false_eq_true, if_false, Bool.and_eq_true, decide_eq_true_eq]
    rw [lt_div_iff₀ hq, div_lt_iff₀ hq]
    norm_cast
  · simp only [if_true, Bool.and_eq_true, decide_eq_true_eq]
    rw [le_div_iff₀ hq, div_le_iff₀ hq]
    norm_cast

/-- What is in an interval is between its ends. -/
theorem Interval.Contains.bounds {interval : Interval} {y : ℚ} (h : interval.Contains y) :
    interval.low ≤ y ∧ y ≤ interval.high := by
  unfold Interval.Contains at h
  split at h
  · exact h
  · exact ⟨h.1.le, h.2.le⟩

end Decimal

/-- A quotient lies in the interval of a word. -/
def RoundsTo (w : Nat) (x : ℚ) : Prop := (Interval.ofWord w).Contains (x * 2 ^ 1076)

theorem roundsTo_div_iff (w p : Nat) {q : Nat} (hq : 0 < q) :
    RoundsTo w (p / q) ↔ (Interval.ofWord w).holds (p * 2 ^ 1076) q = true := by
  rw [Interval.holds_iff _ _ hq, RoundsTo, Nat.cast_mul, Nat.cast_pow, Nat.cast_ofNat,
    div_mul_eq_mul_div]

/-! ### The interval of a word -/

/-- How far the interval of a word reaches below it, in quarters of its unit. -/
def reachBelow (w : Nat) : Nat := if significand w = 2 ^ 52 ∧ 2 ^ 53 ≤ w then 1 else 2

theorem reachBelow_le (w : Nat) : reachBelow w ≤ 2 := by
  unfold reachBelow
  split <;> decide

theorem significand_pos {w : Nat} (h : 0 < w) : 0 < significand w := by
  unfold significand
  split <;> omega

theorem interval_low (w : Nat) :
    (Interval.ofWord w).low = 4 * significand w * 2 ^ scale w - reachBelow w * 2 ^ scale w := by
  unfold Interval.ofWord reachBelow
  by_cases h : significand w = 2 ^ 52 ∧ 2 ^ 53 ≤ w
  · rw [if_pos h, Nat.one_mul]
    simp only [h.1, h.2, beq_self_eq_true, decide_true, Bool.and_self, if_true]
  · have htest : (significand w == 2 ^ 52 && decide (2 ^ 53 ≤ w)) = false := by
      rw [Bool.and_eq_false_iff, beq_eq_false_iff_ne, decide_eq_false_iff_not]
      exact not_and_or.mp h
    rw [if_neg h]
    simp only [htest, Bool.false_eq_true, if_false]

/-- The ends of the interval of a word, over a denominator. -/
theorem interval_ends {w den unit : Nat} (hunit : 2 ^ scale w * den = unit) :
    (Interval.ofWord w).low * den = 4 * (significand w * unit) - reachBelow w * unit ∧
      (Interval.ofWord w).high * den = 4 * (significand w * unit) + 2 * unit := by
  constructor
  · rw [interval_low, Nat.sub_mul, Nat.mul_assoc, Nat.mul_assoc, Nat.mul_assoc, hunit]
  · rw [Interval.ofWord, Nat.add_mul, Nat.mul_assoc, Nat.mul_assoc, Nat.mul_assoc, hunit]

/-- What is at most as far from a word as the ends of its interval lies in the interval; the ends
count where the significand is even. -/
theorem holds_of_near {w num den unit : Nat} (hunit : 2 ^ scale w * den = unit)
    (hlow : 4 * (significand w * unit) ≤ num + reachBelow w * unit)
    (hhigh : num ≤ 4 * (significand w * unit) + 2 * unit)
    (hodd : significand w % 2 = 1 → 4 * (significand w * unit) < num + reachBelow w * unit ∧
      num < 4 * (significand w * unit) + 2 * unit) :
    (Interval.ofWord w).holds num den = true := by
  obtain ⟨hlowEnd, hhighEnd⟩ := interval_ends hunit
  have hclosed : (Interval.ofWord w).closed = (significand w % 2 == 0) := rfl
  have hreach : reachBelow w * unit ≤ 2 * unit := Nat.mul_le_mul_right _ (reachBelow_le w)
  unfold Interval.holds
  rw [hclosed, hlowEnd, hhighEnd]
  by_cases heven : significand w % 2 = 0
  · simp only [heven, beq_self_eq_true, if_true, Bool.and_eq_true, decide_eq_true_eq]
    omega
  · have hone : 1 * unit ≤ significand w * unit := Nat.mul_le_mul_right _ (by omega)
    have hstrict := hodd (by omega)
    simp only [beq_eq_false_iff_ne.mpr heven, Bool.false_eq_true, if_false, Bool.and_eq_true,
      decide_eq_true_eq]
    omega

/-- What is nearer to a word than the ends of its interval lies in the interval. -/
theorem holds_of_bounds {w num den unit : Nat} (hunit : 2 ^ scale w * den = unit)
    (hlow : 4 * (significand w * unit) < num + reachBelow w * unit)
    (hhigh : num < 4 * (significand w * unit) + 2 * unit) :
    (Interval.ofWord w).holds num den = true :=
  holds_of_near hunit hlow.le hhigh.le fun _ => ⟨hlow, hhigh⟩

/-- What is rounded to a positive word is at least half of the least float. -/
theorem RoundsTo.low_le {w : Nat} {x : ℚ} (hw : 0 < w) (h : RoundsTo w x) : 2 ≤ x * 2 ^ 1076 := by
  have hpos := significand_pos hw
  have hunit : 1 ≤ 2 ^ scale w := Nat.one_le_two_pow
  have hlow : 2 ≤ (Interval.ofWord w).low := by
    have hreach := reachBelow_le w
    rw [interval_low, ← Nat.sub_mul]
    exact Nat.mul_le_mul (show 2 ≤ _ by omega) hunit
  calc (2 : ℚ) ≤ (Interval.ofWord w).low := by exact_mod_cast hlow
    _ ≤ x * 2 ^ 1076 := h.bounds.1

theorem RoundsTo.pos {w : Nat} {x : ℚ} (hw : 0 < w) (h : RoundsTo w x) : 0 < x :=
  pos_of_mul_pos_left (two_pos.trans_le (h.low_le hw)) (pow_pos two_pos 1076).le

/-! ### Rounding to a natural number -/

/-- What a quotient is rounded to is at most half away from it, and less than half where it is
odd. -/
theorem bounds_of_roundHalfEven {num den n : Nat} (hden : 0 < den)
    (h : roundHalfEven num den = n) :
    2 * (n * den) ≤ 2 * num + den ∧ 2 * num ≤ 2 * (n * den) + den ∧
      (n % 2 = 1 → 2 * (n * den) < 2 * num + den ∧ 2 * num < 2 * (n * den) + den) := by
  have hsplit := Nat.div_add_mod num den
  have hmod := Nat.mod_lt num hden
  rw [Nat.mul_comm] at hsplit
  unfold roundHalfEven at h
  simp only [Bool.or_eq_true, Bool.and_eq_true, beq_iff_eq, decide_eq_true_eq] at h
  split at h
  · have hmul : n * den = num / den * den := by rw [h]
    omega
  · have hmul : n * den = num / den * den + den := by rw [← h, Nat.succ_mul]
    omega

/-! ### Rounding to a word -/

/-- Intervals are counted in quarters of the least float. -/
theorem quarters (p : Nat) : p * 2 ^ 1076 = 2 ^ 2 * (p * 2 ^ 1074) := by
  rw [show (1076 : Nat) = 1074 + 2 from rfl, pow_add, ← Nat.mul_assoc, Nat.mul_comm (p * _)]

/-- A word that is put together from a scale and a significand that is large enough for it. -/
theorem fields_word {n k : Nat} (hn : n < 2 ^ 53) (hk : k = 0 ∨ 2 ^ 52 ≤ n) :
    significand (word n k) = n ∧ scale (word n k) = k := by
  unfold significand scale word
  split <;> omega

/-- A significand that carries into the scale makes a power of two. -/
theorem fields_word_carry (k : Nat) : significand (word (2 ^ 53) k) = 2 ^ 52 ∧
    scale (word (2 ^ 53) k) = k + 1 ∧ 2 ^ 53 ≤ word (2 ^ 53) k := by
  unfold significand scale word
  split <;> omega

/-- A quotient is below the unit of the scale above its own, and not below its own unit. -/
theorem scale_bounds {x q k : Nat} (hq : 0 < q) (hk : (x / q).log2 - 52 = k) :
    x < 2 ^ 53 * (q * 2 ^ k) ∧ (k = 0 ∨ 2 ^ 52 * (q * 2 ^ k) ≤ x) := by
  constructor
  · have hlt : x / q < 2 ^ (53 + k) :=
      Nat.lt_of_lt_of_le Nat.lt_log2_self (Nat.pow_le_pow_right two_pos (by omega))
    calc x < 2 ^ (53 + k) * q := (Nat.div_lt_iff_lt_mul hq).mp hlt
      _ = 2 ^ 53 * (q * 2 ^ k) := by ring
  · refine or_iff_not_imp_left.mpr fun hpos => ?_
    have hle : 2 ^ (52 + k) ≤ x / q := by
      have hne : x / q ≠ 0 := by
        intro hzero
        rw [hzero] at hk
        exact hpos hk.symm
      exact (Nat.le_log2 hne).mp (by omega)
    calc 2 ^ 52 * (q * 2 ^ k) = 2 ^ (52 + k) * q := by ring
      _ ≤ x := (Nat.le_div_iff_mul_le hq).mp hle

/-- Rounding keeps a quotient between the powers of two that it is between. -/
theorem rounded_bounds {x unit n k : Nat}
    (htop : x < 2 ^ 53 * unit) (hbottom : k = 0 ∨ 2 ^ 52 * unit ≤ x)
    (hlow : 2 * (n * unit) ≤ 2 * x + unit) (hhigh : 2 * x ≤ 2 * (n * unit) + unit) :
    n ≤ 2 ^ 53 ∧ (k = 0 ∨ 2 ^ 52 ≤ n) := by
  constructor
  · by_contra hlt
    have hmul : (2 ^ 53 + 1) * unit ≤ n * unit := Nat.mul_le_mul_right _ (by omega)
    omega
  · refine hbottom.imp_right fun hle => ?_
    by_contra hlt
    have hmul : (n + 1) * unit ≤ 2 ^ 52 * unit := Nat.mul_le_mul_right _ (by omega)
    rw [Nat.succ_mul] at hmul
    omega

/-- A quotient lies in the interval of the word that it is rounded to before what is beyond
infinity is cut off. -/
theorem exists_word_holds {p q : Nat} (hq : 0 < q) :
    ∃ w, nearestWord p q = min w infinityWord ∧
      (Interval.ofWord w).holds (p * 2 ^ 1076) q = true := by
  unfold nearestWord
  simp only
  rw [quarters]
  generalize p * 2 ^ 1074 = x
  generalize hk : (x / q).log2 - 52 = k
  generalize hn : roundHalfEven x (q * 2 ^ k) = n
  refine ⟨word n k, rfl, ?_⟩
  have hden : 0 < q * 2 ^ k := Nat.mul_pos hq (Nat.two_pow_pos k)
  obtain ⟨hlow, hhigh, hodd⟩ := bounds_of_roundHalfEven hden hn
  obtain ⟨htop, hbottom⟩ := scale_bounds hq hk
  generalize hunit : q * 2 ^ k = unit at *
  obtain ⟨hnTop, hnBottom⟩ := rounded_bounds htop hbottom hlow hhigh
  -- the significand fits its scale, or it has been rounded up into the next one
  rcases Nat.lt_or_eq_of_le hnTop with hlt | rfl
  · obtain ⟨hsignificand, hscale⟩ := fields_word hlt hnBottom
    have hown : 2 ^ scale (word n k) * q = unit := by rw [hscale, Nat.mul_comm, hunit]
    by_cases hpower : significand (word n k) = 2 ^ 52 ∧ 2 ^ 53 ≤ word n k
    · -- the interval is narrow below a power of two, but the quotient is not below it
      have hle : significand (word n k) * unit ≤ x := by
        rw [hpower.1]
        refine hbottom.resolve_left fun hzero => ?_
        have hlarge := hpower.2
        rw [word, hzero] at hlarge
        omega
      rw [← hsignificand] at hhigh
      exact holds_of_near hown (by omega) (by omega) fun hm => by omega
    · have hreach : reachBelow (word n k) = 2 := if_neg hpower
      refine holds_of_near hown ?_ ?_ fun hm => ?_
      · rw [hreach, hsignificand]
        omega
      · rw [hsignificand]
        omega
      · rw [hsignificand] at hm ⊢
        have hstrict := hodd hm
        rw [hreach]
        omega
  · obtain ⟨hsignificand, hscale, hlarge⟩ := fields_word_carry k
    have hreach : reachBelow (word (2 ^ 53) k) = 1 := if_pos ⟨hsignificand, hlarge⟩
    have hdouble : 2 ^ scale (word (2 ^ 53) k) * q = 2 * unit := by
      rw [hscale, ← hunit]
      ring
    refine holds_of_near hdouble ?_ ?_ ?_
    all_goals rw [hsignificand]
    · rw [hreach]
      omega
    · omega
    · exact fun hm => absurd hm (by decide)

/-! ### Neighbouring words -/

namespace Binary64

/-- The magnitude of a word, counted in the least float. -/
def units (w : Nat) : Nat := significand w * 2 ^ scale w

theorem units_word {n k : Nat} (hn : n ≤ 2 ^ 53) (hk : k = 0 ∨ 2 ^ 52 ≤ n) :
    units (word n k) = n * 2 ^ k := by
  rcases Nat.lt_or_eq_of_le hn with hlt | rfl
  · obtain ⟨hsignificand, hscale⟩ := fields_word hlt hk
    rw [units, hsignificand, hscale]
  · obtain ⟨hsignificand, hscale, -⟩ := fields_word_carry k
    rw [units, hsignificand, hscale]
    ring

/-- Where the scale is not the least one, the significand has its leading bit. -/
theorem scale_eq_zero_or (w : Nat) : scale w = 0 ∨ 2 ^ 52 ≤ significand w := by
  unfold scale significand
  split <;> omega

/-- The next word has the next significand, which may carry. -/
theorem succ_eq_word (w : Nat) : w + 1 = word (significand w + 1) (scale w) := by
  have hparts := word_significand_scale w
  unfold word at hparts ⊢
  omega

/-- From a word to the next one it is a unit of the word's scale. -/
theorem units_succ (w : Nat) : units (w + 1) = units w + 2 ^ scale w := by
  have hlt := significand_lt w
  have hscale := scale_eq_zero_or w
  rw [succ_eq_word, units_word (by omega) (by omega), Nat.succ_mul]
  rfl

theorem units_strictMono : StrictMono units := by
  refine strictMono_nat_of_lt_succ fun w => ?_
  rw [units_succ]
  exact Nat.lt_add_of_pos_right (Nat.two_pow_pos _)

theorem units_zero : units 0 = 0 := rfl

theorem significand_mod_two (w : Nat) : significand w % 2 = w % 2 := by
  unfold significand
  split <;> omega

/-- Downwards an interval reaches half of the step from the word before, in quarters. -/
theorem reachBelow_succ (w : Nat) : reachBelow (w + 1) * 2 ^ scale (w + 1) = 2 * 2 ^ scale w := by
  have hnext := succ_eq_word w
  have hlt := significand_lt w
  have hscale := scale_eq_zero_or w
  rcases Nat.lt_or_eq_of_le (show significand w + 1 ≤ 2 ^ 53 by omega) with hless | hcarry
  · obtain ⟨hsignificand, hsame⟩ := fields_word hless (k := scale w) (by omega)
    have hreach : reachBelow (w + 1) = 2 := by
      refine if_neg fun hpower => ?_
      rw [hnext, hsignificand] at hpower
      -- the first power of two with a leading bit still has the least scale
      have hzero : scale w = 0 := by omega
      rw [hzero, word] at hpower
      omega
    rw [hreach, hnext, hsame]
  · obtain ⟨hsignificand, hsame, hlarge⟩ := fields_word_carry (scale w)
    rw [hcarry] at hnext
    have hreach : reachBelow (w + 1) = 1 := if_pos (hnext ▸ ⟨hsignificand, hlarge⟩)
    rw [hreach, hnext, hsame, Nat.pow_succ, Nat.one_mul, Nat.mul_comm]

end Binary64

/-! ### Intervals and neighbours -/

/-- Upwards an interval reaches halfway to the next word. -/
theorem interval_high (w : Nat) : (Interval.ofWord w).high = 2 * (units w + units (w + 1)) := by
  have hhigh : (Interval.ofWord w).high = 4 * significand w * 2 ^ scale w + 2 * 2 ^ scale w := rfl
  rw [hhigh, units_succ, Nat.mul_assoc]
  unfold units
  omega

theorem interval_low_zero : (Interval.ofWord 0).low = 0 := rfl

/-- One interval ends where the next begins, halfway between the two words. -/
theorem interval_low_succ (w : Nat) :
    (Interval.ofWord (w + 1)).low = 2 * (units w + units (w + 1)) := by
  have hstep := units_succ w
  rw [interval_low, reachBelow_succ, Nat.mul_assoc]
  change 4 * units (w + 1) - 2 * 2 ^ scale w = _
  omega

theorem interval_low_strictMono : StrictMono fun w => (Interval.ofWord w).low := by
  refine strictMono_nat_of_lt_succ fun w => ?_
  cases w with
  | zero => decide
  | succ u =>
    have hfirst := units_strictMono (Nat.lt_add_one u)
    have hsecond := units_strictMono (Nat.lt_add_one (u + 1))
    simp only [interval_low_succ]
    omega

/-- The interval of a word, in the interval's units. Its ends count where the word is even. -/
theorem roundsTo_iff {w : Nat} {r : ℚ} : RoundsTo w r ↔
    ((Interval.ofWord w).low ≤ r * 2 ^ 1076 ∧ r * 2 ^ 1076 ≤ (Interval.ofWord w).high) ∧
    (w % 2 = 1 →
      (Interval.ofWord w).low < r * 2 ^ 1076 ∧ r * 2 ^ 1076 < (Interval.ofWord w).high) := by
  have hclosed : (Interval.ofWord w).closed = (w % 2 == 0) := by
    rw [← significand_mod_two]
    rfl
  unfold RoundsTo Interval.Contains
  rw [hclosed]
  by_cases heven : w % 2 = 0
  · rw [if_pos (beq_iff_eq.mpr heven)]
    exact ⟨fun h => ⟨h, fun hodd => by omega⟩, And.left⟩
  · rw [if_neg (by rwa [beq_iff_eq])]
    exact ⟨fun h => ⟨⟨h.1.le, h.2.le⟩, fun _ => h⟩, fun h => h.2 (by omega)⟩

/-- A magnitude lies in the interval of one word only. -/
theorem RoundsTo.le_of_roundsTo {w v : Nat} {r : ℚ} (hw : RoundsTo w r) (hv : RoundsTo v r) :
    v ≤ w := by
  by_contra hlt
  obtain ⟨⟨-, hhigh⟩, hwodd⟩ := roundsTo_iff.mp hw
  obtain ⟨⟨hlow, -⟩, hvodd⟩ := roundsTo_iff.mp hv
  rw [interval_high, ← interval_low_succ] at hhigh hwodd
  have hends : (Interval.ofWord v).low ≤ (Interval.ofWord (w + 1)).low := by
    exact_mod_cast hlow.trans hhigh
  have hle : v ≤ w + 1 := interval_low_strictMono.le_iff_le.mp hends
  obtain rfl : v = w + 1 := by omega
  -- the two share an end, and one of them is odd
  rcases Nat.mod_two_eq_zero_or_one w with heven | hodd
  · exact absurd hhigh (not_le.mpr (hvodd (by omega)).1)
  · exact absurd hlow (not_le.mpr (hwodd hodd).2)

/-- So there is at most one word that a magnitude is rounded to, if there is one. -/
theorem RoundsTo.unique {w v : Nat} {r : ℚ} (hw : RoundsTo w r) (hv : RoundsTo v r) : w = v :=
  Nat.le_antisymm (hv.le_of_roundsTo hw) (hw.le_of_roundsTo hv)

/-! ### What is too large -/

/-- From here on a magnitude is nearer to `2 ^ 1024` than to every finite float, or as near. -/
def overflow : ℚ := 2 ^ 1024 - 2 ^ 970

theorem overflow_eq_mul : overflow = (2 ^ 54 - 1) * 2 ^ 970 := by
  rw [overflow, pow_add 2 54 970, sub_mul, one_mul]

theorem interval_low_infinity : ((Interval.ofWord infinityWord).low : ℚ) = overflow * 2 ^ 1076 := by
  have hlow : (Interval.ofWord infinityWord).low = (4 * 2 ^ 52 - 1) * 2 ^ 2046 := by
    have hsignificand : significand infinityWord = 2 ^ 52 := by decide
    have hscale : scale infinityWord = 2046 := by decide
    have hreach : reachBelow infinityWord = 1 := by decide
    rw [interval_low, hsignificand, hscale, hreach, ← Nat.sub_mul]
  rw [hlow, overflow_eq_mul, mul_assoc, ← pow_add, Nat.cast_mul, Nat.cast_pow]
  norm_num

/-- What is rounded to a finite word is nearer to it than to `2 ^ 1024`. -/
theorem RoundsTo.lt_overflow {w : Nat} {r : ℚ} (hw : w < infinityWord) (h : RoundsTo w r) :
    r < overflow := by
  obtain ⟨⟨-, hhigh⟩, hodd⟩ := roundsTo_iff.mp h
  rw [interval_high, ← interval_low_succ] at hhigh hodd
  have hunit : (0 : ℚ) < 2 ^ 1076 := by positivity
  refine lt_of_mul_lt_mul_right ?_ hunit.le
  rw [← interval_low_infinity]
  rcases Nat.lt_or_eq_of_le (show w + 1 ≤ infinityWord from hw) with hless | hlast
  · exact hhigh.trans_lt (by exact_mod_cast interval_low_strictMono hless)
  · -- the last finite word is odd
    have hwodd : w % 2 = 1 := by
      rw [infinityWord] at hlast
      omega
    rw [← hlast]
    exact (hodd hwodd).2

theorem RoundsTo.overflow_le {w : Nat} {r : ℚ} (hw : infinityWord ≤ w) (h : RoundsTo w r) :
    overflow ≤ r := by
  have hunit : (0 : ℚ) < 2 ^ 1076 := by positivity
  refine le_of_mul_le_mul_right ?_ hunit
  rw [← interval_low_infinity]
  refine le_trans ?_ (roundsTo_iff.mp h).1.1
  exact_mod_cast interval_low_strictMono.monotone hw

/-! ### Rounding to a word up to infinity -/

/-- A word is what a magnitude is rounded to. -/
inductive IsRounded (r : ℚ) : Nat → Prop
  | finite {w : Nat} (hw : w < infinityWord) (h : RoundsTo w r) : IsRounded r w
  | infinite (h : overflow ≤ r) : IsRounded r infinityWord

/-- With infinity among the words there is still at most one. -/
theorem IsRounded.unique {r : ℚ} {w v : Nat} (hw : IsRounded r w) (hv : IsRounded r v) : w = v := by
  cases hw with
  | finite hwlt hw =>
    cases hv with
    | finite hvlt hv => exact hw.unique hv
    | infinite hv => exact absurd (hw.lt_overflow hwlt) (not_lt.mpr hv)
  | infinite hw =>
    cases hv with
    | finite hvlt hv => exact absurd (hv.lt_overflow hvlt) (not_lt.mpr hw)
    | infinite hv => rfl

theorem IsRounded.roundsTo {r : ℚ} {w : Nat} (h : IsRounded r w) (hw : w < infinityWord) :
    RoundsTo w r := by
  cases h with
  | finite _ h => exact h
  | infinite _ => exact absurd hw (Nat.lt_irrefl _)

theorem IsRounded.lt_infinityWord {r : ℚ} {w : Nat} (h : IsRounded r w) (hr : r < overflow) :
    w < infinityWord := by
  cases h with
  | finite hw _ => exact hw
  | infinite hle => exact absurd hr (not_lt.mpr hle)

/-- A quotient is rounded to its nearest word. -/
theorem isRounded_nearestWord (p : Nat) {q : Nat} (hq : 0 < q) :
    IsRounded (p / q) (nearestWord p q) := by
  obtain ⟨w, hword, hholds⟩ := @exists_word_holds p q hq
  have hround := (roundsTo_div_iff w p hq).mpr hholds
  rcases Nat.lt_or_ge w infinityWord with hlt | hge
  · rw [hword, Nat.min_eq_left hlt.le]
    exact .finite hlt hround
  · rw [hword, Nat.min_eq_right hge]
    exact .infinite (hround.overflow_le hge)

/-! ### Decimals -/

/-- A power of two that is at most one of ten remains so when both are raised to the fifth power. -/
theorem two_pow_le_ten_pow {R : Type} [Semiring R] [PartialOrder R] [IsStrictOrderedRing R]
    {a b : Nat} (h : (2 : R) ^ a ≤ 10 ^ b) : (2 : R) ^ (a * 5) ≤ 10 ^ (b * 5) := by
  rw [pow_mul, pow_mul]
  exact pow_le_pow_left₀ (by positivity) h 5

/-- What is below `10 ^ -330` is below half of the least float. -/
theorem two_pow_le_ten_pow_330 : (2 : ℚ) ^ 1076 ≤ 10 ^ 330 :=
  calc (2 : ℚ) ^ 1076 ≤ 2 ^ (216 * 5) := pow_le_pow_right₀ one_le_two (by decide)
    _ ≤ 10 ^ (66 * 5) := two_pow_le_ten_pow (by norm_num)

/-- What is from `10 ^ 310` on is twice what is beyond every float. -/
theorem two_pow_le_ten_pow_310 : (2 : ℚ) ^ 1025 ≤ 10 ^ 310 :=
  two_pow_le_ten_pow (a := 205) (b := 62) (by norm_num)

/-- A decimal whose power of ten is far below its digits is small. -/
theorem decimal_small {n digits : Nat} {e : Int} (hn : n < 10 ^ digits) (h : e + digits < -330) :
    (n : ℚ) * 10 ^ e * 10 ^ 330 ≤ 1 := by
  have hten : (0 : ℚ) < 10 ^ e := by positivity
  have hle : (n : ℚ) * 10 ^ e ≤ 10 ^ (-330 : Int) :=
    calc (n : ℚ) * 10 ^ e ≤ 10 ^ (digits : Int) * 10 ^ e := by
          rw [zpow_natCast]
          exact mul_le_mul_of_nonneg_right (by exact_mod_cast hn.le) hten.le
      _ = 10 ^ (e + digits) := by rw [← zpow_add₀ (by norm_num), add_comm]
      _ ≤ 10 ^ (-330 : Int) := zpow_le_zpow_right₀ (by norm_num) h.le
  have hone : (10 : ℚ) ^ (-330 : Int) * 10 ^ 330 = 1 := by
    rw [zpow_neg, zpow_ofNat]
    exact inv_mul_cancel₀ (by positivity)
  rw [← hone]
  exact mul_le_mul_of_nonneg_right hle (by positivity)

/-- A decimal with a large power of ten is large. -/
theorem decimal_large {n : Nat} {e : Int} (hn : n ≠ 0) (h : 310 < e) :
    (10 : ℚ) ^ 310 ≤ n * 10 ^ e :=
  calc (10 : ℚ) ^ 310 = 1 * 10 ^ (310 : Int) := by rw [one_mul, zpow_ofNat]
    _ ≤ n * 10 ^ e := mul_le_mul (by exact_mod_cast Nat.pos_of_ne_zero hn)
      (zpow_le_zpow_right₀ (by norm_num) h.le) (by positivity) (by positivity)

/-- What is small enough is rounded to zero. -/
theorem isRounded_zero {r : ℚ} (hr : 0 ≤ r) (hsmall : r * 10 ^ 330 ≤ 1) : IsRounded r 0 := by
  refine .finite (by decide) (roundsTo_iff.mpr ⟨⟨?_, ?_⟩, nofun⟩)
  · rw [interval_low_zero, Nat.cast_zero]
    positivity
  · calc r * 2 ^ 1076 ≤ r * 10 ^ 330 := mul_le_mul_of_nonneg_left two_pow_le_ten_pow_330 hr
      _ ≤ 1 := hsmall
      _ ≤ (Interval.ofWord 0).high := by exact_mod_cast show 1 ≤ 2 by decide

/-- A decimal is rounded to the word that is computed for it, also where its power of ten is so
far out that it is not computed. -/
theorem isRounded_scaledWord {n digits : Nat} {e : Int} (hn : n < 10 ^ digits) :
    IsRounded (n * 10 ^ e) (Numeral.scaledWord n digits e) := by
  unfold Numeral.scaledWord
  split
  · next hzero =>
    simp only [Bool.or_eq_true, beq_iff_eq, decide_eq_true_eq] at hzero
    refine isRounded_zero (by positivity) ?_
    rcases hzero with rfl | hsmall
    · rw [Nat.cast_zero, zero_mul, zero_mul]
      exact zero_le_one
    · exact decimal_small hn hsmall
  · next hzero =>
    simp only [Bool.or_eq_true, beq_iff_eq, decide_eq_true_eq, not_or] at hzero
    split
    · next hlarge =>
      -- too large for every float, so infinity is right without a computation
      refine .infinite ?_
      calc overflow ≤ 2 ^ 1024 := sub_le_self _ (by positivity)
        _ ≤ 2 ^ 1025 := pow_le_pow_right₀ one_le_two (by decide)
        _ ≤ 10 ^ 310 := two_pow_le_ten_pow_310
        _ ≤ n * 10 ^ e := decimal_large hzero.1 hlarge
    · cases e with
      | ofNat k =>
        have hround := isRounded_nearestWord (n * 10 ^ k) one_pos
        rwa [Nat.cast_mul, Nat.cast_pow, Nat.cast_ofNat, Nat.cast_one, div_one] at hround
      | negSucc k =>
        have hround := isRounded_nearestWord n (q := 10 ^ (k + 1)) (by positivity)
        rwa [Nat.cast_pow, Nat.cast_ofNat, div_eq_mul_inv, ← zpow_negSucc] at hround

/-- A decimal in the interval of a finite word is rounded to the word, however far its power of ten
is out. -/
theorem RoundsTo.scaledWord_eq {w n digits : Nat} {e : Int} (hfinite : w < infinityWord)
    (hn : n < 10 ^ digits) (h : RoundsTo w (n * 10 ^ e)) : Numeral.scaledWord n digits e = w :=
  (isRounded_scaledWord hn).unique (.finite hfinite h)

/-- A decimal that is rounded to a finite word lies in the interval of the word. -/
theorem roundsTo_of_scaledWord {w n digits : Nat} {e : Int} (hfinite : w < infinityWord)
    (hn : n < 10 ^ digits) (h : Numeral.scaledWord n digits e = w) : RoundsTo w (n * 10 ^ e) := by
  have hround := isRounded_scaledWord (e := e) hn
  rw [h] at hround
  exact hround.roundsTo hfinite

end ToyCpu
