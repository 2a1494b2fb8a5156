import ToyCpu.Proofs.Shortest

/-!
# No decimal is shorter

The shortest decimal of a float has the fewest digits of all decimals that are rounded to the
float. The decimals that are rounded to it make an interval around it, so if one of them is a
multiple of some power of ten then so is one of the float's two neighbours on that grid, and the
grids are searched from the coarsest one on.

* `IsDecimal` — the numbers that some digits and a power of ten make.
* `RoundsTo.up`, `RoundsTo.down` — the interval has no gaps.
* `exists_multiple`, `isDecimal_of_gridDigits` — a decimal of `k` digits, and the grid of `k`
  digits.
* `shortest_fewest` — no decimal that is rounded to the float has fewer digits.
* `withoutZeros`, `isDecimal_iff` — how many digits of a decimal count.
-/

namespace ToyCpu

open Binary64

namespace Decimal

/-- A decimal of at most `k` digits, wherever its point is. -/
def IsDecimal (k : Nat) (x : ℚ) : Prop := ∃ (n : Nat) (e : Int), x = n * 10 ^ e ∧ n < 10 ^ k

theorem IsDecimal.mono {k k' : Nat} {x : ℚ} (h : IsDecimal k x) (hk : k ≤ k') : IsDecimal k' x := by
  obtain ⟨n, e, hx, hn⟩ := h
  exact ⟨n, e, hx, Nat.lt_of_lt_of_le hn (Nat.pow_le_pow_right (by decide) hk)⟩

/-- Only zero is a decimal without a digit. -/
theorem IsDecimal.digits_pos {k : Nat} {x : ℚ} (h : IsDecimal k x) (hx : 0 < x) : 0 < k := by
  obtain ⟨n, e, rfl, hn⟩ := h
  refine Nat.pos_of_ne_zero fun hk => hx.ne' ?_
  rw [hk, Nat.pow_zero, Nat.lt_one_iff] at hn
  rw [hn, Nat.cast_zero, zero_mul]

/-- The power of ten after the greatest number of `k` digits has one digit. -/
theorem isDecimal_of_le {k n : Nat} (hk : 0 < k) (hn : n ≤ 10 ^ k) (e : Int) :
    IsDecimal k (n * 10 ^ e) := by
  rcases Nat.lt_or_eq_of_le hn with hlt | rfl
  · exact ⟨n, e, rfl, hlt⟩
  · refine ⟨1, k + e, ?_, Nat.one_lt_pow hk.ne' (by decide)⟩
    rw [zpow_add₀ (by norm_num), zpow_natCast, Nat.cast_pow, Nat.cast_ofNat, Nat.cast_one, one_mul]

/-! ### From a decimal towards the centre of the interval -/

variable {w : Nat} {x y : ℚ}

theorem center_eq (w : Nat) :
    ((Interval.ofWord w).center : ℚ) = significand w * 2 ^ scale w * 2 ^ 2 := by
  rw [Interval.ofWord, Nat.cast_mul, Nat.cast_mul, Nat.cast_pow, Nat.cast_ofNat, Nat.cast_ofNat]
  ring

/-- The centre of an interval is inside. -/
theorem center_inside (hw : 0 < w) :
    (Interval.ofWord w).low < (Interval.ofWord w).center ∧
      (Interval.ofWord w).center < (Interval.ofWord w).high := by
  have hunit := Nat.two_pow_pos (scale w)
  have hreach : 0 < reachBelow w := by
    unfold reachBelow
    split <;> decide
  have hbelow : 0 < reachBelow w * 2 ^ scale w := Nat.mul_pos hreach hunit
  have hvalue : 0 < 4 * significand w * 2 ^ scale w :=
    Nat.mul_pos (Nat.mul_pos (by decide) (significand_pos hw)) hunit
  have hcenter : (Interval.ofWord w).center = 4 * significand w * 2 ^ scale w := rfl
  have hhigh : (Interval.ofWord w).high = 4 * significand w * 2 ^ scale w + 2 * 2 ^ scale w := rfl
  rw [interval_low, hcenter, hhigh]
  omega

end Decimal

open Decimal

variable {w : Nat} {x y : ℚ}

/-- What lies between a decimal in the interval and the centre is in the interval. -/
theorem RoundsTo.up (hw : 0 < w) (h : RoundsTo w x) (hxy : x ≤ y)
    (hy : y * 2 ^ 1076 ≤ (Interval.ofWord w).center) : RoundsTo w y := by
  have hinside : ((Interval.ofWord w).center : ℚ) < (Interval.ofWord w).high :=
    Nat.cast_lt.mpr (center_inside hw).2
  have hle : x * 2 ^ 1076 ≤ y * 2 ^ 1076 := mul_le_mul_of_nonneg_right hxy (by positivity)
  unfold RoundsTo Interval.Contains at h ⊢
  split at h
  · rw [if_pos ‹_›]
    exact ⟨h.1.trans hle, hy.trans hinside.le⟩
  · rw [if_neg ‹_›]
    exact ⟨h.1.trans_le hle, hy.trans_lt hinside⟩

theorem RoundsTo.down (hw : 0 < w) (h : RoundsTo w x) (hyx : y ≤ x)
    (hy : (Interval.ofWord w).center ≤ y * 2 ^ 1076) : RoundsTo w y := by
  have hinside : ((Interval.ofWord w).low : ℚ) < (Interval.ofWord w).center :=
    Nat.cast_lt.mpr (center_inside hw).1
  have hle : y * 2 ^ 1076 ≤ x * 2 ^ 1076 := mul_le_mul_of_nonneg_right hyx (by positivity)
  unfold RoundsTo Interval.Contains at h ⊢
  split at h
  · rw [if_pos ‹_›]
    exact ⟨hinside.le.trans hy, hle.trans h.2⟩
  · rw [if_neg ‹_›]
    exact ⟨hinside.trans_le hy, hle.trans_lt h.2⟩

namespace Decimal

/-! ### What is found on a grid -/

/-- How often a step of the grid goes into the magnitude. -/
def stepsUnder (w : Nat) (e : Int) : Nat :=
  (Interval.ofWord w).center * (gridUnit e).2 / (gridUnit e).1

theorem stepsUnder_spec (w : Nat) (e : Int) :
    stepsUnder w e * 10 ^ e * 2 ^ 1076 ≤ ((Interval.ofWord w).center : ℚ) ∧
      ((Interval.ofWord w).center : ℚ) < (stepsUnder w e + 1 : Nat) * 10 ^ e * 2 ^ 1076 := by
  obtain ⟨hnum, hden, hunit⟩ := gridUnit_spec e
  have hq : (0 : ℚ) < (gridUnit e).2 := Nat.cast_pos.mpr hden
  have hle : stepsUnder w e * (gridUnit e).1 ≤ (Interval.ofWord w).center * (gridUnit e).2 :=
    Nat.div_mul_le_self _ _
  have hlt : (Interval.ofWord w).center * (gridUnit e).2 < (stepsUnder w e + 1) * (gridUnit e).1 :=
    (Nat.div_lt_iff_lt_mul hnum).mp (Nat.lt_succ_self _)
  rw [mul_assoc, mul_assoc, ← hunit, ← mul_div_assoc, ← mul_div_assoc, div_le_iff₀ hq,
    lt_div_iff₀ hq]
  constructor
  · exact_mod_cast hle
  · exact_mod_cast hlt

theorem gridDigits?_cases {tie : TieRule} {n : Nat} {e : Int}
    (h : gridDigits? tie (Interval.ofWord w) e = some n) :
    n = stepsUnder w e ∨ n = stepsUnder w e + 1 := by
  unfold gridDigits? at h
  simp only at h
  split at h
  · rw [← Option.some.inj h]
    split
    · exact .inl rfl
    · exact .inr rfl
  · exact .inl (Option.some.inj h).symm
  · exact .inr (Option.some.inj h).symm
  · cases h

/-- If any multiple of a power of ten is rounded to the word, one is found on that grid. -/
theorem exists_gridDigits_of_roundsTo (tie : TieRule) (hw : 0 < w) {N : Nat} {e : Int}
    (h : RoundsTo w (N * 10 ^ e)) : ∃ n, gridDigits? tie (Interval.ofWord w) e = some n := by
  obtain ⟨hunder, habove⟩ := stepsUnder_spec w e
  have hten : (0 : ℚ) ≤ 10 ^ e := by positivity
  -- the multiple is on one side of the centre, and a neighbour of the centre is nearer
  have hneighbour : RoundsTo w (stepsUnder w e * 10 ^ e) ∨
      RoundsTo w ((stepsUnder w e + 1 : Nat) * 10 ^ e) := by
    rcases Nat.lt_or_ge (stepsUnder w e) N with hlt | hge
    · exact .inr (h.down hw (mul_le_mul_of_nonneg_right (Nat.cast_le.mpr hlt) hten) habove.le)
    · exact .inl (h.up hw (mul_le_mul_of_nonneg_right (Nat.cast_le.mpr hge) hten) hunder)
  rw [roundsTo_iff_holds, roundsTo_iff_holds] at hneighbour
  unfold gridDigits?
  simp only
  unfold stepsUnder at hneighbour
  split
  · exact ⟨_, rfl⟩
  · exact ⟨_, rfl⟩
  · exact ⟨_, rfl⟩
  · next hnone hnone' =>
    rw [hnone, hnone'] at hneighbour
    simp at hneighbour

/-! ### The place of the point -/

/-- The magnitude is below the place of its point. -/
theorem center_lt (w : Nat) :
    ((Interval.ofWord w).center : ℚ) < 10 ^ pointPlace w * 2 ^ 1076 := by
  have hten : (0 : ℚ) < 10 ^ 330 := pow_pos (by norm_num) 330
  have htwo : 0 < 2 ^ 1074 := Nat.two_pow_pos 1074
  have hdigits := lt_pow_digitCount (significand w * 2 ^ scale w * 10 ^ 330 / 2 ^ 1074)
  have hlt := (Nat.div_lt_iff_lt_mul htwo).mp hdigits
  have hplace : pointPlace w
      = (digitCount (significand w * 2 ^ scale w * 10 ^ 330 / 2 ^ 1074) : Int) - 330 := rfl
  have hcast := Nat.cast_lt (α := ℚ).mpr hlt
  simp only [Nat.cast_mul, Nat.cast_pow, Nat.cast_ofNat] at hcast
  rw [center_eq, hplace, zpow_sub₀ (by norm_num), zpow_natCast, zpow_ofNat, div_mul_eq_mul_div,
    lt_div_iff₀ hten, pow_add 2 1074 2]
  generalize (2 : ℚ) ^ 1074 = least at hcast ⊢
  generalize (10 : ℚ) ^ 330 = shift at hcast ⊢
  linarith

/-- And not below the place before it. -/
theorem le_center {w : Nat} (hw : 0 < w) :
    (10 : ℚ) ^ (pointPlace w - 1) * 2 ^ 1076 ≤ (Interval.ofWord w).center := by
  have hle := pow_pointPlace_le hw
  rw [center_eq, pow_add 2 1074 2]
  generalize (2 : ℚ) ^ 1074 = least at hle ⊢
  linarith

/-- If a decimal of `k` digits is rounded to the word, then so is one on the grid of `k` digits
before the place of the point. -/
theorem exists_multiple (hw : 0 < w) {k : Nat} (h : RoundsTo w x) (hx : IsDecimal k x) :
    ∃ N : Nat, RoundsTo w (N * 10 ^ (pointPlace w - k)) := by
  have hk := hx.digits_pos (h.pos hw)
  obtain ⟨n, e, rfl, hn⟩ := hx
  by_cases he : pointPlace w - k ≤ e
  · -- it is on that grid itself
    obtain ⟨d, hd⟩ := Int.eq_ofNat_of_zero_le (Int.sub_nonneg.mpr he)
    refine ⟨n * 10 ^ d, ?_⟩
    have hsplit : e = d + (pointPlace w - k) := by omega
    rw [hsplit, zpow_add₀ (by norm_num), zpow_natCast, ← mul_assoc] at h
    exact_mod_cast h
  · -- it is below a power of ten that is not above the magnitude
    refine ⟨10 ^ (k - 1), ?_⟩
    have hpower : ((10 ^ (k - 1) : ℕ) : ℚ) * 10 ^ (pointPlace w - k) = 10 ^ (pointPlace w - 1) := by
      rw [Nat.cast_pow, Nat.cast_ofNat, ← zpow_natCast, ← zpow_add₀ (by norm_num)]
      congr 1
      omega
    rw [hpower]
    refine h.up hw ?_ (le_center hw)
    calc (n : ℚ) * 10 ^ e ≤ 10 ^ k * 10 ^ e :=
          mul_le_mul_of_nonneg_right (by exact_mod_cast hn.le) (by positivity)
      _ = 10 ^ (k + e) := by rw [zpow_add₀ (by norm_num), zpow_natCast]
      _ ≤ 10 ^ (pointPlace w - 1) := zpow_le_zpow_right₀ (by norm_num) (by omega)

/-- What is found on the grid of `k` digits has no more than `k` digits. -/
theorem isDecimal_of_gridDigits {tie : TieRule} {k n : Nat} (hk : 0 < k)
    (h : gridDigits? tie (Interval.ofWord w) (pointPlace w - k) = some n) :
    IsDecimal k (n * 10 ^ (pointPlace w - k)) := by
  have hlt : stepsUnder w (pointPlace w - k) < 10 ^ k := by
    have hle := (stepsUnder_spec w (pointPlace w - k)).1.trans_lt (center_lt w)
    have hsplit : (10 : ℚ) ^ pointPlace w = 10 ^ k * 10 ^ (pointPlace w - k) := by
      rw [← zpow_natCast, ← zpow_add₀ (by norm_num)]
      congr 1
      omega
    rw [hsplit] at hle
    have hsteps :=
      lt_of_mul_lt_mul_right (lt_of_mul_lt_mul_right hle (by positivity)) (by positivity)
    exact_mod_cast hsteps
  refine isDecimal_of_le hk ?_ _
  rcases gridDigits?_cases h with rfl | rfl
  · exact hlt.le
  · exact hlt

/-- No decimal that is rounded to the word has fewer digits than the shortest one. -/
theorem shortest_fewest (tie : TieRule) (hw : 0 < w) {k : Nat} (h : RoundsTo w x)
    (hx : IsDecimal k x) : IsDecimal k (shortest tie w).value := by
  obtain ⟨i, n, hn, hpos, hshortest, hnone⟩ := shortest_found tie hw
  have hdecimal : IsDecimal (i + 1) (shortest tie w).value := by
    rw [hshortest, (Digits.ofMultiple_spec hpos _).2]
    exact isDecimal_of_gridDigits (Nat.succ_pos i) hn
  refine hdecimal.mono ?_
  -- were there fewer digits, something would have been found on their grid
  by_contra hlt
  obtain ⟨N, hN⟩ := exists_multiple hw h hx
  obtain ⟨m, hm⟩ := exists_gridDigits_of_roundsTo tie hw hN
  have hk := hx.digits_pos (h.pos hw)
  have hfew := hnone (k - 1) (by omega)
  rw [Nat.sub_add_cancel hk, hm] at hfew
  cases hfew

/-! ### Significant digits -/

/-- Digits without the zeros at either end. -/
def withoutZeros (ds : List Char) : List Char :=
  (ds.dropWhile (· == '0')).rdropWhile (· == '0')

/-- What is left of some digits begins and ends with another digit than 0. -/
theorem withoutZeros_spec (ds : List Char) :
    (∃ a b, ds = List.replicate a '0' ++ (withoutZeros ds ++ List.replicate b '0')) ∧
      (withoutZeros ds).head? ≠ some '0' ∧ (withoutZeros ds).getLast? ≠ some '0' := by
  have hfront : ds.takeWhile (· == '0') ++ ds.dropWhile (· == '0') = ds :=
    List.takeWhile_append_dropWhile
  have hback : withoutZeros ds ++ (ds.dropWhile (· == '0')).rtakeWhile (· == '0')
      = ds.dropWhile (· == '0') := List.rdropWhile_append_rtakeWhile
  have hzeros : ∀ c ∈ ds.takeWhile (· == '0'), c = '0' :=
    fun c hc => beq_iff_eq.mp (List.mem_takeWhile_imp (p := (· == '0')) hc)
  have hzeros' : ∀ c ∈ (ds.dropWhile (· == '0')).rtakeWhile (· == '0'), c = '0' :=
    fun c hc => beq_iff_eq.mp (List.mem_rtakeWhile_imp (p := (· == '0')) hc)
  refine ⟨⟨(ds.takeWhile (· == '0')).length,
    ((ds.dropWhile (· == '0')).rtakeWhile (· == '0')).length, ?_⟩, fun hhead => ?_, fun hlast => ?_⟩
  · rw [← List.eq_replicate_of_mem hzeros, ← List.eq_replicate_of_mem hzeros', hback, hfront]
  · have hnot := List.head?_dropWhile_not (· == '0') ds
    obtain ⟨rest, hrest⟩ := List.head?_eq_some_iff.mp hhead
    rw [← hback, hrest, List.cons_append, List.head?_cons] at hnot
    cases hnot
  · have hne : withoutZeros ds ≠ [] := by
      intro hnil
      rw [hnil] at hlast
      cases hlast
    refine List.rdropWhile_last_not (· == '0') (ds.dropWhile (· == '0')) hne ?_
    rw [List.getLast?_eq_some_getLast hne] at hlast
    exact beq_iff_eq.mpr (Option.some.inj hlast)

/-- A number that is no multiple of ten is the least that has its digits. -/
theorem le_of_mul_pow_eq {m n : Nat} {a b : Int} (hm : ¬ 10 ∣ m)
    (h : (m : ℚ) * 10 ^ a = n * 10 ^ b) : m ≤ n := by
  rcases le_total b a with hle | hle
  · obtain ⟨d, hd⟩ := Int.eq_ofNat_of_zero_le (Int.sub_nonneg.mpr hle)
    have hsplit : a = d + b := by omega
    rw [hsplit, zpow_add₀ (by norm_num), zpow_natCast, ← mul_assoc] at h
    have heq : m * 10 ^ d = n := by
      exact_mod_cast mul_right_cancel₀ (zpow_ne_zero b (by norm_num)) h
    exact heq ▸ Nat.le_mul_of_pos_right m (by positivity)
  · obtain ⟨d, hd⟩ := Int.eq_ofNat_of_zero_le (Int.sub_nonneg.mpr hle)
    have hsplit : b = d + a := by omega
    rw [hsplit, zpow_add₀ (by norm_num), zpow_natCast, ← mul_assoc] at h
    have heq : m = n * 10 ^ d := by
      exact_mod_cast mul_right_cancel₀ (zpow_ne_zero a (by norm_num)) h
    cases d with
    | zero => exact heq.le.trans (by simp)
    | succ d => exact absurd ⟨n * 10 ^ d, by rw [heq, pow_succ]; ring⟩ hm

/-- A decimal needs as many digits as are left without the zeros at either end. -/
theorem isDecimal_iff {ds : List Char} (h : ∀ c ∈ ds, c.isDigit = true) (e : Int) (k : Nat) :
    IsDecimal k (decimalNatural ds * 10 ^ e) ↔ (withoutZeros ds).length ≤ k := by
  obtain ⟨⟨a, b, hds⟩, hhead, hlast⟩ := withoutZeros_spec ds
  have hdigits : ∀ c ∈ withoutZeros ds, c.isDigit = true := by
    intro c hc
    refine h c ?_
    rw [hds]
    exact List.mem_append_right _ (List.mem_append_left _ hc)
  have hvalue : (decimalNatural ds : ℚ) * 10 ^ e
      = decimalNatural (withoutZeros ds) * 10 ^ (b + e) := by
    have hnat : decimalNatural ds = decimalNatural (withoutZeros ds) * 10 ^ b := by
      conv_lhs => rw [hds]
      rw [decimalNatural_zeros_append, decimalNatural_append_zeros]
    rw [hnat, zpow_add₀ (by norm_num), zpow_natCast, Nat.cast_mul, Nat.cast_pow, Nat.cast_ofNat,
      mul_assoc]
  rw [hvalue]
  generalize withoutZeros ds = ws at *
  constructor
  · rintro ⟨n, f, heq, hn⟩
    rcases List.eq_nil_or_concat' ws with rfl | ⟨init, last, rfl⟩
    · exact Nat.zero_le k
    · have hdvd : ¬ 10 ∣ decimalNatural (init ++ [last]) := by
        refine not_dvd_decimalNatural (hdigits last (by simp)) ?_
        rintro rfl
        exact hlast (by simp)
      have hle := le_of_mul_pow_eq hdvd heq
      obtain ⟨first, rest, hcons⟩ := List.exists_cons_of_ne_nil
        (List.append_ne_nil_of_right_ne_nil init (List.cons_ne_nil last []))
      rw [hcons] at hle hdigits hhead ⊢
      have hfirst : first ≠ '0' := by
        rintro rfl
        exact hhead rfl
      have hneeds : 10 ^ rest.length ≤ decimalNatural (first :: rest) :=
        pow_le_decimalNatural (hdigits first List.mem_cons_self) hfirst
      have hlt :=
        (Nat.pow_lt_pow_iff_right (by decide : 1 < 10)).mp ((hneeds.trans hle).trans_lt hn)
      exact hlt
  · intro hk
    exact ⟨_, _, rfl, (decimalNatural_lt hdigits).trans_le (Nat.pow_le_pow_right (by decide) hk)⟩

end Decimal

end ToyCpu
