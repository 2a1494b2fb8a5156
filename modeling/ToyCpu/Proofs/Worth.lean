import Mathlib.Algebra.Order.Field.Power
import Mathlib.Data.Rat.Cast.Order
import Mathlib.Tactic.Positivity
import ToyCpu.Proofs.Words

/-!
# What floats are worth

A finite float is worth a rational number, which its word spells out: the significand times a
power of two, with the sign. What the interpreter asks of a float — whether it is a number, whether
it is zero, which natural number it is — it asks of that rational number.

* `worth`, `IsWorth` — the rational number of a finite float.
* `natural?_eq_some_iff` — the natural number that a float equals is what it is worth.
* `isNaN_iff`, `isInf_iff`, `beq_zero_iff`, `beq_self` — tests and comparisons, as facts about the
  word.
-/

namespace ToyCpu.Binary64

open Float.Model
open UnpackedFloat hiding pack unpack

/-- What a finite float is worth. -/
def worth (x : Float) : ℚ :=
  (if isNegative x then -1 else 1)
    * ((significand (magnitude x) * 2 ^ scale (magnitude x) : ℕ) / (2 ^ 1074 : ℕ))

/-- The float is finite and worth this much. -/
def IsWorth (x : Float) (q : ℚ) : Prop := x.isFinite = true ∧ worth x = q

/-! ### Natural numbers -/

theorem significand_eq_zero {w : Nat} : significand w = 0 ↔ w = 0 := by
  unfold significand
  split <;> omega

/-- A float is worth nothing if it is one of the two zeros. -/
theorem isWorth_zero_iff (x : Float) : IsWorth x 0 ↔ magnitude x = 0 := by
  have hunit : ((2 ^ 1074 : ℕ) : ℚ) ≠ 0 := Nat.cast_ne_zero.mpr (Nat.two_pow_pos 1074).ne'
  have hsign : (if isNegative x then (-1 : ℚ) else 1) ≠ 0 := by
    split
    · exact neg_ne_zero.mpr one_ne_zero
    · exact one_ne_zero
  have hworth : worth x = 0 ↔ magnitude x = 0 := by
    unfold worth
    rw [mul_eq_zero, or_iff_right hsign, div_eq_zero_iff, or_iff_left hunit, Nat.cast_eq_zero,
      Nat.mul_eq_zero, or_iff_left (Nat.two_pow_pos _).ne', significand_eq_zero]
  unfold IsWorth
  rw [hworth, isFinite_iff]
  refine ⟨And.right, fun hzero => ⟨?_, hzero⟩⟩
  rw [hzero]
  decide

/-- The natural number that a float equals is the one that it is worth. -/
theorem natural?_eq_some_iff {x : Float} {n : Nat} : natural? x = some n ↔ IsWorth x n := by
  rcases Nat.eq_zero_or_pos (magnitude x) with hzero | hpos
  · -- either zero is worth 0 and nothing else
    have hworth := (isWorth_zero_iff x).mpr hzero
    have hnatural : natural? x = some 0 := by
      unfold natural?
      simp only
      rw [hzero]
      rfl
    rw [hnatural, Option.some.injEq]
    constructor
    · rintro rfl
      exact_mod_cast hworth
    · intro h
      exact_mod_cast hworth.2.symm.trans h.2
  · have hfinite := isFinite_iff x
    have hunit : 0 < 2 ^ 1074 := Nat.two_pow_pos 1074
    have hscaled : 0 < significand (magnitude x) * 2 ^ scale (magnitude x) :=
      Nat.mul_pos (Nat.pos_of_ne_zero (significand_eq_zero.not.mpr hpos.ne')) (Nat.two_pow_pos _)
    unfold natural? IsWorth worth
    simp only
    generalize significand (magnitude x) * 2 ^ scale (magnitude x) = scaled at *
    generalize 2 ^ 1074 = unit at *
    have hquotient : (0 : ℚ) < scaled / unit :=
      div_pos (Nat.cast_pos.mpr hscaled) (Nat.cast_pos.mpr hunit)
    rw [if_neg (by simpa using hpos.ne'), hfinite]
    by_cases hnegative : isNegative x = true
    · -- what is below zero is no natural number
      rw [if_pos (by rw [hnegative]; rfl), if_pos hnegative, neg_one_mul]
      refine ⟨nofun, fun ⟨_, h⟩ => ?_⟩
      have hlt := neg_lt_zero.mpr hquotient
      rw [h] at hlt
      exact absurd hlt (not_lt.mpr (Nat.cast_nonneg n))
    · have hwhole : (scaled : ℚ) / unit = n ↔ scaled = n * unit := by
        rw [div_eq_iff (Nat.cast_ne_zero.mpr hunit.ne')]
        exact_mod_cast Iff.rfl
      rw [if_neg hnegative, one_mul, hwhole]
      by_cases hinfinite : infinityWord ≤ magnitude x
      · rw [if_pos (by simp [hinfinite])]
        exact ⟨nofun, fun h => absurd h.1 (Nat.not_lt.mpr hinfinite)⟩
      · by_cases hrest : scaled % unit = 0
        · rw [if_neg (by simp [hnegative, hinfinite, hrest]), Option.some.injEq,
            Nat.div_eq_iff_eq_mul_left hunit (Nat.dvd_of_mod_eq_zero hrest)]
          exact ⟨fun h => ⟨Nat.not_le.mp hinfinite, h⟩, And.right⟩
        · rw [if_pos (by simp [hrest])]
          refine ⟨nofun, fun h => absurd ?_ hrest⟩
          rw [h.2, Nat.mul_mod_left]

/-! ### Tests and comparisons -/

/-- What is beyond infinity is not a number. -/
theorem isNaN_iff (x : Float) : x.isNaN = true ↔ infinityWord < magnitude x := by
  have hmax := unpackExponent_eq_max_iff (wordOf x)
  have hzero := unpackMantissa_eq_zero_iff (wordOf x)
  have hnan : x.isNaN = true ↔
      unpackExponent (wordOf x) = -1#_ ∧ unpackMantissa (wordOf x) ≠ 0#_ := by
    show (UnpackedFloat.unpack .binary64 (wordOf x)).isNaN = true ↔ _
    have hunpacked := unpacked (wordOf x)
    generalize UnpackedFloat.unpack .binary64 (wordOf x) = u at hunpacked ⊢
    cases hunpacked with
    | infinite hexp hmant => exact ⟨nofun, fun h => absurd hmant h.2⟩
    | nan hexp hmant => exact ⟨fun _ => ⟨hexp, hmant⟩, fun _ => rfl⟩
    | zero hexp => exact ⟨nofun, fun h => absurd (hexp.symm.trans h.1) (by decide)⟩
    | subnormal hexp => exact ⟨nofun, fun h => absurd (hexp.symm.trans h.1) (by decide)⟩
    | normal hmax => exact ⟨nofun, fun h => absurd h.1 hmax⟩
  have hlt := x.toBits.toNat_lt
  rw [hnan, Ne, hmax, hzero, wordOf_toNat, magnitude, infinityWord]
  omega

/-- The infinite floats are the two whose magnitude is infinity's. -/
theorem isInf_iff (x : Float) : x.isInf = true ↔ magnitude x = infinityWord := by
  have hmax := unpackExponent_eq_max_iff (wordOf x)
  have hzero := unpackMantissa_eq_zero_iff (wordOf x)
  have hinf : x.isInf = true ↔
      unpackExponent (wordOf x) = -1#_ ∧ unpackMantissa (wordOf x) = 0#_ := by
    show (UnpackedFloat.unpack .binary64 (wordOf x)).isInf = true ↔ _
    have hunpacked := unpacked (wordOf x)
    generalize UnpackedFloat.unpack .binary64 (wordOf x) = u at hunpacked ⊢
    cases hunpacked with
    | infinite hexp hmant => exact ⟨fun _ => ⟨hexp, hmant⟩, fun _ => rfl⟩
    | nan hexp hmant => exact ⟨nofun, fun h => absurd h.2 hmant⟩
    | zero hexp => exact ⟨nofun, fun h => absurd (hexp.symm.trans h.1) (by decide)⟩
    | subnormal hexp => exact ⟨nofun, fun h => absurd (hexp.symm.trans h.1) (by decide)⟩
    | normal hmax => exact ⟨nofun, fun h => absurd h.1 hmax⟩
  have hlt := x.toBits.toNat_lt
  rw [hinf, hmax, hzero, wordOf_toNat, magnitude, infinityWord]
  omega

/-- There are two zeros. -/
theorem eq_zero_of_magnitude {x : Float} (h : magnitude x = 0) :
    x = if isNegative x then -0 else 0 := by
  rw [← ofMagnitude_magnitude x, h]
  cases isNegative x
  · rfl
  · rfl

/-- The floats equal to zero are the two zeros. -/
theorem beq_zero_iff (x : Float) : (x == 0) = true ↔ magnitude x = 0 := by
  have hfields : (x == 0) = true ↔
      (unpackExponent (wordOf x)).toNat = 0 ∧ (unpackMantissa (wordOf x)).toNat = 0 := by
    show ((UnpackedFloat.unpack .binary64 (wordOf x)).compare (.zero .positive) == some .eq)
      = true ↔ _
    have hunpacked := unpacked (wordOf x)
    generalize UnpackedFloat.unpack .binary64 (wordOf x) = u at hunpacked ⊢
    -- whatever is no zero is compared by its sign alone
    cases hunpacked with
    | infinite hexp =>
      constructor
      · intro h
        generalize Sign.ofBitVec (unpackSign (wordOf x)) = sign at h
        cases sign <;> cases h
      · intro h
        rw [hexp] at h
        exact absurd h.1 (by decide)
    | nan hexp =>
      constructor
      · exact nofun
      · intro h
        rw [hexp] at h
        exact absurd h.1 (by decide)
    | zero hexp hmant =>
      rw [hexp, hmant]
      exact ⟨fun _ => ⟨rfl, rfl⟩, fun _ => rfl⟩
    | subnormal hexp hpos =>
      constructor
      · intro h
        generalize Sign.ofBitVec (unpackSign (wordOf x)) = sign at h
        cases sign <;> cases h
      · exact fun h => absurd h.2 hpos.ne'
    | normal hmax hnone =>
      constructor
      · intro h
        generalize Sign.ofBitVec (unpackSign (wordOf x)) = sign at h
        cases sign <;> cases h
      · exact fun h => absurd (BitVec.toNat_inj.mp h.1) hnone
  rw [hfields, unpackExponent_toNat, unpackMantissa_toNat, wordOf_toNat, magnitude]
  omega

theorem compare_self (u : UnpackedFloat) : u.compare u = some .eq ∨ u = .notANumber := by
  cases u with
  | notANumber => exact .inr rfl
  | infinity sign => cases sign <;> exact .inl rfl
  | zero sign => exact .inl rfl
  | finite sign mantissa exponent =>
    have hself : (compare exponent exponent).then (compare mantissa mantissa) = .eq := by simp
    refine .inl ?_
    cases sign
    · exact congrArg (some ∘ Ordering.swap) hself
    · exact congrArg some hself

/-- Every number equals itself. -/
theorem beq_self {x : Float} (h : x.isNaN = false) : (x == x) = true := by
  show ((UnpackedFloat.unpack .binary64 (wordOf x)).compare
    (UnpackedFloat.unpack .binary64 (wordOf x)) == some .eq) = true
  change (UnpackedFloat.unpack .binary64 (wordOf x)).isNaN = false at h
  rcases compare_self (UnpackedFloat.unpack .binary64 (wordOf x)) with hself | hnan
  · rw [hself]
    rfl
  · rw [hnan] at h
    cases h

end ToyCpu.Binary64
