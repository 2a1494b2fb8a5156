import ToyCpu.Proofs.Rounding
import ToyCpu.Proofs.Worth

/-!
# Nearest floats

A magnitude in the interval of a word is nearer to the word than to every other one, or as near
where the word's last bit is 0. A float whose word has a magnitude in its interval is therefore the
float nearest to it, and there is no other.

* `RoundsTo.dist_le`, `roundsTo_of_dist_le` — intervals as distances to words.
* `IsNearest` — a float is the one nearest to a rational number, said without words.
* `isNearest_iff_isRounded` — the float's word is what the number is rounded to.
* `IsNearest.unique` — one float of a sign is nearest to a number.
* `isWorth_iff_of_isNearest` — small natural numbers are kept, and large ones stay large.
-/

namespace ToyCpu

open Binary64 Decimal

/-! ### Distances -/

section

variable {a b y : ℚ}

/-- Of two numbers the larger is nearer to what is beyond the point halfway between them. -/
theorem dist_right_le_iff (h : a < b) : |b - y| ≤ |a - y| ↔ a + b ≤ 2 * y := by
  rw [← sq_le_sq]
  constructor
  · intro hle
    nlinarith
  · intro hle
    nlinarith

theorem dist_right_lt_iff (h : a < b) : |b - y| < |a - y| ↔ a + b < 2 * y := by
  rw [← sq_lt_sq]
  constructor
  · intro hlt
    nlinarith
  · intro hlt
    nlinarith

/-- The smaller is nearer to what is before it. -/
theorem dist_left_le_iff (h : a < b) : |a - y| ≤ |b - y| ↔ 2 * y ≤ a + b := by
  rw [← not_lt, dist_right_lt_iff h, not_lt]

theorem dist_left_lt_iff (h : a < b) : |a - y| < |b - y| ↔ 2 * y < a + b := by
  rw [← not_le, dist_right_le_iff h, not_le]

end

namespace Binary64

/-- What the magnitude of a word is worth. -/
def size (w : Nat) : ℚ := (units w : ℚ) / 2 ^ 1074

/-- Larger words are worth more. -/
theorem size_strictMono : StrictMono size := fun _ _ h =>
  div_lt_div_of_pos_right (by exact_mod_cast units_strictMono h) (by positivity)

theorem size_zero : size 0 = 0 := by
  rw [size, units_zero, Nat.cast_zero, zero_div]

theorem size_nonneg (w : Nat) : 0 ≤ size w := by
  unfold size
  positivity

/-- A magnitude with a sign. -/
def signed (negative : Bool) (r : ℚ) : ℚ := (if negative then -1 else 1) * r

theorem signed_false (r : ℚ) : signed false r = r := by
  rw [signed, if_neg nofun, one_mul]

/-- A float is worth its magnitude, with its sign. -/
theorem worth_eq (x : Float) : worth x = signed (isNegative x) (size (magnitude x)) := by
  unfold worth signed size units
  push_cast
  rfl

theorem abs_signed (negative : Bool) (r : ℚ) : |signed negative r| = |r| := by
  cases negative
  · rw [signed_false]
  · rw [signed, if_pos rfl, neg_one_mul, abs_neg]

theorem abs_worth (x : Float) : |worth x| = size (magnitude x) := by
  rw [worth_eq, abs_signed, abs_of_nonneg (size_nonneg _)]

/-- One sign can be taken out of a difference. -/
theorem signed_sub (negative : Bool) (r s : ℚ) :
    signed negative r - signed negative s = signed negative (r - s) :=
  (mul_sub _ _ _).symm

end Binary64

/-- The point between two intervals is halfway between their words. -/
theorem interval_low_succ_eq (w : Nat) :
    ((Interval.ofWord (w + 1)).low : ℚ) = (size w + size (w + 1)) / 2 * 2 ^ 1076 := by
  have hunit : (2 : ℚ) ^ 1076 = 4 * 2 ^ 1074 := by
    rw [pow_add 2 2 1074]
    norm_num
  have hpos : (2 : ℚ) ^ 1074 ≠ 0 := by positivity
  rw [interval_low_succ, hunit, size, size]
  push_cast
  field_simp
  ring

section

variable {w : Nat} {r : ℚ}

/-- What is beyond the lower end of an interval is beyond the point halfway to the word before. -/
theorem low_le_iff : ((Interval.ofWord (w + 1)).low : ℚ) ≤ r * 2 ^ 1076 ↔
    size w + size (w + 1) ≤ 2 * r := by
  have hunit : (0 : ℚ) < 2 ^ 1076 := by positivity
  rw [interval_low_succ_eq, mul_le_mul_iff_left₀ hunit, div_le_iff₀ two_pos, mul_comm r]

theorem low_lt_iff : ((Interval.ofWord (w + 1)).low : ℚ) < r * 2 ^ 1076 ↔
    size w + size (w + 1) < 2 * r := by
  have hunit : (0 : ℚ) < 2 ^ 1076 := by positivity
  rw [interval_low_succ_eq, mul_lt_mul_iff_left₀ hunit, div_lt_iff₀ two_pos, mul_comm r]

/-- What is before the upper end is before the point halfway to the next word. -/
theorem le_high_iff : r * 2 ^ 1076 ≤ ((Interval.ofWord w).high : ℚ) ↔
    2 * r ≤ size w + size (w + 1) := by
  rw [interval_high, ← interval_low_succ, ← not_lt, low_lt_iff, not_lt]

theorem lt_high_iff : r * 2 ^ 1076 < ((Interval.ofWord w).high : ℚ) ↔
    2 * r < size w + size (w + 1) := by
  rw [interval_high, ← interval_low_succ, ← not_le, low_le_iff, not_le]

/-- Too large is what is beyond the point halfway from the last finite word to the next. -/
theorem overflow_eq : 2 * overflow = size (infinityWord - 1) + size infinityWord := by
  have hunit : (2 : ℚ) ^ 1076 ≠ 0 := by positivity
  have hends := interval_low_succ_eq (infinityWord - 1)
  rw [show infinityWord - 1 + 1 = infinityWord from rfl, interval_low_infinity] at hends
  rw [mul_right_cancel₀ hunit hends]
  ring

/-- No word is nearer to a magnitude than the one in whose interval it lies, and if that one is
odd, no other is as near. -/
theorem RoundsTo.dist_le (h : RoundsTo w r) (v : Nat) : |size w - r| ≤ |size v - r| ∧
    (v ≠ w → w % 2 = 1 → |size w - r| < |size v - r|) := by
  obtain ⟨⟨hlow, hhigh⟩, hodd⟩ := roundsTo_iff.mp h
  rcases Nat.lt_trichotomy v w with hlt | rfl | hgt
  · obtain ⟨u, rfl⟩ : ∃ u, w = u + 1 := ⟨w - 1, by omega⟩
    have hle : size v ≤ size u := size_strictMono.monotone (Nat.le_of_lt_add_one hlt)
    rw [low_le_iff] at hlow
    rw [low_lt_iff] at hodd
    rw [dist_right_le_iff (size_strictMono hlt), dist_right_lt_iff (size_strictMono hlt)]
    constructor
    · linarith
    · intro _ hw
      linarith [(hodd hw).1]
  · exact ⟨le_rfl, fun hne => absurd rfl hne⟩
  · have hle : size (w + 1) ≤ size v := size_strictMono.monotone hgt
    rw [le_high_iff] at hhigh
    rw [lt_high_iff] at hodd
    rw [dist_left_le_iff (size_strictMono hgt), dist_left_lt_iff (size_strictMono hgt)]
    constructor
    · linarith
    · intro _ hw
      linarith [(hodd hw).2]

/-- The word that is nearest to a magnitude among the finite ones has it in its interval. -/
theorem roundsTo_of_dist_le (hr : 0 ≤ r) (hlt : r < overflow) (hw : w < infinityWord)
    (h : ∀ v < infinityWord, |size w - r| ≤ |size v - r| ∧
      (v ≠ w → w % 2 = 1 → |size w - r| < |size v - r|)) : RoundsTo w r := by
  have hlow : (Interval.ofWord w).low ≤ r * 2 ^ 1076 ∧
      (w % 2 = 1 → (Interval.ofWord w).low < r * 2 ^ 1076) := by
    cases w with
    | zero =>
      rw [interval_low_zero, Nat.cast_zero]
      exact ⟨by positivity, nofun⟩
    | succ u =>
      obtain ⟨hle, hless⟩ := h u (Nat.lt_of_succ_lt hw)
      have hstep := size_strictMono (Nat.lt_add_one u)
      rw [low_le_iff, low_lt_iff]
      rw [dist_right_le_iff hstep] at hle
      rw [dist_right_lt_iff hstep] at hless
      exact ⟨hle, hless (by omega)⟩
  have hhigh : r * 2 ^ 1076 ≤ (Interval.ofWord w).high ∧
      (w % 2 = 1 → r * 2 ^ 1076 < (Interval.ofWord w).high) := by
    rw [le_high_iff, lt_high_iff]
    rcases Nat.lt_or_eq_of_le (show w + 1 ≤ infinityWord from hw) with hnext | hlast
    · obtain ⟨hle, hless⟩ := h (w + 1) hnext
      have hstep := size_strictMono (Nat.lt_add_one w)
      rw [dist_left_le_iff hstep] at hle
      rw [dist_left_lt_iff hstep] at hless
      exact ⟨hle, hless (by omega)⟩
    · -- the word after the last finite one is no float's, but nothing is too large
      have hend : 2 * r < size w + size (w + 1) := by
        rw [hlast, show w = infinityWord - 1 by omega, ← overflow_eq]
        linarith
      exact ⟨hend.le, fun _ => hend⟩
  exact roundsTo_iff.mpr ⟨⟨hlow.1, hhigh.1⟩, fun hodd => ⟨hlow.2 hodd, hhigh.2 hodd⟩⟩

end

/-! ### Nearest floats -/

/-- A float is what a rational number is rounded to: no finite float is nearer to it, and none is
as near unless the float's last bit is 0. What is too large is rounded to infinity. -/
inductive IsNearest (q : ℚ) (x : Float) : Prop
  | finite (hlt : |q| < overflow) (hfinite : x.isFinite = true)
      (hnearest : ∀ y : Float, y.isFinite = true → |worth x - q| ≤ |worth y - q|)
      (heven : ∀ y : Float, y.isFinite = true → worth y ≠ worth x →
        |worth y - q| = |worth x - q| → x.toBits.toNat % 2 = 0)
  | infinite (hle : overflow ≤ |q|) (hinfinite : x.isInf = true)

/-- The last bit of a float is that of its magnitude. -/
theorem magnitude_mod_two (x : Float) : magnitude x % 2 = x.toBits.toNat % 2 := by
  unfold magnitude
  omega

/-- A float of the sign is as far from a number as their magnitudes are from each other. -/
theorem dist_eq {x : Float} {negative : Bool} (hsign : isNegative x = negative) (r : ℚ) :
    |worth x - signed negative r| = |size (magnitude x) - r| := by
  rw [worth_eq, hsign, signed_sub, abs_signed]

/-- A float of either sign is as far at least. -/
theorem dist_ge (y : Float) (negative : Bool) {r : ℚ} (hr : 0 ≤ r) :
    |size (magnitude y) - r| ≤ |worth y - signed negative r| := by
  have hdist := abs_abs_sub_abs_le (worth y) (signed negative r)
  rwa [abs_worth, abs_signed, abs_of_nonneg hr] at hdist

/-- One of the other sign is not nearer than zero. -/
theorem le_dist_of_flipped {y : Float} {negative : Bool} {r : ℚ} (hr : 0 ≤ r)
    (hsign : isNegative y ≠ negative) : r ≤ |worth y - signed negative r| := by
  have hsize := size_nonneg (magnitude y)
  have hflip : worth y = signed negative (-size (magnitude y)) := by
    have hnot : isNegative y = !negative := Bool.eq_not.mpr hsign
    rw [worth_eq, hnot]
    unfold signed
    cases negative
    · simp
    · simp
  rw [hflip, signed_sub, abs_signed, ← abs_neg, neg_sub, sub_neg_eq_add,
    abs_of_nonneg (add_nonneg hr hsize)]
  exact le_add_of_nonneg_right hsize

/-- A float is nearest to a number of its sign if its word is what the magnitude of the number is
rounded to. -/
theorem isNearest_iff_isRounded {x : Float} {negative : Bool} {r : ℚ} (hr : 0 ≤ r)
    (hsign : isNegative x = negative) :
    IsNearest (signed negative r) x ↔ IsRounded r (magnitude x) := by
  have hmagnitude : |signed negative r| = r := by rw [abs_signed, abs_of_nonneg hr]
  constructor
  · intro h
    cases h with
    | finite hlt hfinite hnearest heven =>
      rw [hmagnitude] at hlt
      rw [isFinite_iff] at hfinite
      refine .finite hfinite (roundsTo_of_dist_le hr hlt hfinite fun v hv => ?_)
      -- every word is that of a float with the sign
      obtain ⟨hword, hsame⟩ := @fields_ofMagnitude negative v hv.le
      have hyfinite := (isFinite_iff (ofMagnitude negative v)).mpr (by rwa [hword])
      have hle := hnearest _ hyfinite
      rw [dist_eq hsign, dist_eq hsame, hword] at hle
      refine ⟨hle, fun hne hodd => lt_of_le_of_ne hle fun heq => ?_⟩
      have hother : worth (ofMagnitude negative v) ≠ worth x := by
        intro hworth
        have habs := congrArg abs hworth
        rw [abs_worth, abs_worth, hword] at habs
        exact hne (size_strictMono.injective habs)
      have hbit := heven _ hyfinite hother (by rw [dist_eq hsign, dist_eq hsame, hword, heq])
      rw [magnitude_mod_two] at hodd
      omega
    | infinite hle hinfinite =>
      rw [hmagnitude] at hle
      rw [(isInf_iff x).mp hinfinite]
      exact .infinite hle
  · intro h
    generalize hword : magnitude x = w at h
    cases h with
    | finite hw h =>
      subst hword
      refine .finite (by rw [hmagnitude]; exact h.lt_overflow hw) ((isFinite_iff x).mpr hw) ?_ ?_
      · intro y _
        rw [dist_eq hsign]
        exact (h.dist_le _).1.trans (dist_ge y negative hr)
      · intro y _ hne heq
        by_contra hodd
        rw [← magnitude_mod_two] at hodd
        rw [dist_eq hsign] at heq
        by_cases hsame : magnitude y = magnitude x
        · -- the magnitudes agree and so the signs do not, but then zero would be nearer
          have hflipped : isNegative y ≠ negative := by
            rintro rfl
            exact hne (by rw [worth_eq, worth_eq, hsame, hsign])
          have hzero := (h.dist_le 0).2 (by omega) (by omega)
          rw [size_zero, zero_sub, abs_neg, abs_of_nonneg hr, ← heq] at hzero
          exact absurd (le_dist_of_flipped hr hflipped) (not_le.mpr hzero)
        · have hfar := (h.dist_le _).2 hsame (by omega)
          exact absurd (dist_ge y negative hr) (not_le.mpr (heq ▸ hfar))
    | infinite h => exact .infinite (by rwa [hmagnitude]) ((isInf_iff x).mpr hword)

/-- There is one float of a sign that is nearest to a number of that sign. -/
theorem IsNearest.unique {x y : Float} {negative : Bool} {r : ℚ} (hr : 0 ≤ r)
    (hx : isNegative x = negative) (hy : isNegative y = negative)
    (h : IsNearest (signed negative r) x) (h' : IsNearest (signed negative r) y) : x = y := by
  have hrounded := (isNearest_iff_isRounded hr hx).mp h
  have hrounded' := (isNearest_iff_isRounded hr hy).mp h'
  rw [← ofMagnitude_magnitude x, ← ofMagnitude_magnitude y, hrounded.unique hrounded', hx, hy]

/-! ### Natural numbers -/

/-- A natural number of 64 bits is not too large. -/
theorem natCast_lt_overflow {n : Nat} (hn : n < 2 ^ 64) : (n : ℚ) < overflow :=
  calc (n : ℚ) < 2 ^ 64 := by exact_mod_cast hn
    _ ≤ 2 ^ 970 := pow_le_pow_right₀ one_le_two (by decide)
    _ ≤ (2 ^ 54 - 1) * 2 ^ 970 := le_mul_of_one_le_left (by positivity) (by norm_num)
    _ = overflow := overflow_eq_mul.symm

/-- A natural number that a significand can hold is what a float is worth. -/
theorem exists_isWorth {n : Nat} (hn : n < 2 ^ 53) : ∃ x : Float, IsWorth x n := by
  rcases Nat.eq_zero_or_pos n with rfl | hpos
  · exact ⟨0, by exact_mod_cast (isWorth_zero_iff 0).mpr rfl⟩
  · have hlog : n.log2 < 53 := (Nat.log2_lt hpos.ne').mpr hn
    have hlow := Nat.log2_self_le hpos.ne'
    have hhigh := @Nat.lt_log2_self n
    -- shifted up to where the significand has its leading bit
    obtain ⟨j, hj⟩ : ∃ j, n.log2 + j = 52 := ⟨52 - n.log2, by omega⟩
    have hleading : 2 ^ 52 ≤ n * 2 ^ j := by
      calc 2 ^ 52 = 2 ^ n.log2 * 2 ^ j := by rw [← Nat.pow_add, hj]
        _ ≤ n * 2 ^ j := Nat.mul_le_mul_right _ hlow
    have hbits : n * 2 ^ j < 2 ^ 53 := by
      calc n * 2 ^ j < 2 ^ (n.log2 + 1) * 2 ^ j :=
            Nat.mul_lt_mul_of_pos_right hhigh (Nat.two_pow_pos j)
        _ = 2 ^ 53 := by rw [← Nat.pow_add, Nat.add_right_comm, hj]
    have hunits : units (word (n * 2 ^ j) (1074 - j)) = n * 2 ^ 1074 := by
      rw [units_word hbits.le (.inr hleading), Nat.mul_assoc, ← Nat.pow_add,
        Nat.add_sub_cancel' (by omega)]
    have hword : word (n * 2 ^ j) (1074 - j) < infinityWord := by
      unfold word infinityWord
      omega
    obtain ⟨hmagnitude, hsign⟩ := @fields_ofMagnitude false _ hword.le
    refine ⟨ofMagnitude false (word (n * 2 ^ j) (1074 - j)), ?_, ?_⟩
    · rw [isFinite_iff, hmagnitude]
      exact hword
    · have hunit : (2 : ℚ) ^ 1074 ≠ 0 := by positivity
      rw [worth_eq, hmagnitude, hsign, signed_false, size, hunits, Nat.cast_mul,
        Nat.cast_pow, Nat.cast_ofNat, mul_div_cancel_right₀ _ hunit]

/-- A float nearest to a natural number is worth a small one only if it is that one, and if it is,
then it is worth it. -/
theorem isWorth_iff_of_isNearest {x : Float} {n a : Nat} (h : IsNearest n x)
    (ha : a < 2 ^ 53 - 1) : IsWorth x a ↔ a = n := by
  constructor
  · rintro ⟨hfinite, hworth⟩
    cases h with
    | infinite hle hinfinite =>
      rw [isFinite_iff, (isInf_iff x).mp hinfinite] at hfinite
      exact absurd hfinite (Nat.lt_irrefl _)
    | finite hlt _ hnearest heven =>
      rcases Nat.lt_or_ge n (2 ^ 53) with hn | hn
      · obtain ⟨y, hyfinite, hyworth⟩ := exists_isWorth hn
        have hle := hnearest y hyfinite
        rw [hworth, hyworth, sub_self, abs_zero] at hle
        have hzero := abs_nonpos_iff.mp hle
        exact_mod_cast sub_eq_zero.mp hzero
      · -- the largest small number would be nearer
        obtain ⟨y, hyfinite, hyworth⟩ := exists_isWorth (n := 2 ^ 53 - 1) (by omega)
        have hle := hnearest y hyfinite
        rw [hworth, hyworth] at hle
        have hless : (a : ℚ) < ((2 ^ 53 - 1 : Nat) : ℚ) := by exact_mod_cast ha
        have hnless : ((2 ^ 53 - 1 : Nat) : ℚ) < n := by exact_mod_cast (by omega : 2 ^ 53 - 1 < n)
        exact absurd hle (not_le.mpr ((dist_right_lt_iff hless).mpr (by linarith)))
  · rintro rfl
    cases h with
    | infinite hle hinfinite =>
      rw [Nat.abs_cast] at hle
      exact absurd (natCast_lt_overflow (by omega)) (not_lt.mpr hle)
    | finite hlt hfinite hnearest heven =>
      obtain ⟨y, hyfinite, hyworth⟩ := exists_isWorth (n := a) (by omega)
      have hle := hnearest y hyfinite
      rw [hyworth, sub_self, abs_zero] at hle
      exact ⟨hfinite, sub_eq_zero.mp (abs_nonpos_iff.mp hle)⟩

end ToyCpu
