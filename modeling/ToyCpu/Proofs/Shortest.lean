import Mathlib.Data.List.DropRight
import ToyCpu.Proofs.Digits
import ToyCpu.Proofs.Rounding

/-!
# The shortest digits

The shortest decimal of a float is one that is rounded to the float. Whether it is the shortest
is not said here; that one is found among at most seventeen digits is.

* `exists_gridDigits` — seventeen digits are enough.
* `gridDigits?_roundsTo` — what is found on a grid is rounded to the word.
* `shortest_found` — the grid on which the shortest decimal is found.
* `shortest_spec` — so the digits written for a word are rounded to the word.
-/

namespace ToyCpu.Decimal

open Binary64

/-! ### Grids -/

/-- A grid point, as a quotient in the units of intervals. -/
theorem gridUnit_spec (e : Int) :
    0 < (gridUnit e).1 ∧ 0 < (gridUnit e).2 ∧
      ((gridUnit e).1 : ℚ) / (gridUnit e).2 = 10 ^ e * 2 ^ 1076 := by
  cases e with
  | ofNat k =>
    simp only [gridUnit]
    refine ⟨by positivity, one_pos, ?_⟩
    simp only [Nat.cast_one, div_one, Nat.cast_mul, Nat.cast_pow, Nat.cast_ofNat,
      Int.ofNat_eq_natCast, zpow_natCast]
  | negSucc k =>
    simp only [gridUnit]
    refine ⟨by positivity, by positivity, ?_⟩
    simp only [Nat.cast_pow, Nat.cast_ofNat, zpow_negSucc, div_eq_inv_mul]

/-- What is found on a grid lies in the interval. -/
theorem gridDigits?_holds {tie : TieRule} {interval : Interval} {e : Int} {n : Nat}
    (h : gridDigits? tie interval e = some n) :
    interval.holds (n * (gridUnit e).1) (gridUnit e).2 = true := by
  unfold gridDigits? at h
  simp only at h
  split at h
  · next hunder habove =>
    rw [← Option.some.inj h]
    split
    · exact hunder
    · exact habove
  · next hunder _ =>
    rw [← Option.some.inj h]
    exact hunder
  · next _ habove =>
    rw [← Option.some.inj h]
    exact habove
  · cases h

/-- A multiple of a power of ten is rounded to the word exactly if it lies in the interval. -/
theorem roundsTo_iff_holds (w n : Nat) (e : Int) : RoundsTo w (n * 10 ^ e) ↔
    (Interval.ofWord w).holds (n * (gridUnit e).1) (gridUnit e).2 = true := by
  obtain ⟨-, hden, hunit⟩ := gridUnit_spec e
  rw [Interval.holds_iff _ _ hden, Nat.cast_mul, mul_div_assoc, hunit, ← mul_assoc]
  rfl

/-- What is found on a grid is rounded to the word. -/
theorem gridDigits?_roundsTo {tie : TieRule} {w n : Nat} {e : Int}
    (h : gridDigits? tie (Interval.ofWord w) e = some n) : RoundsTo w (n * 10 ^ e) :=
  (roundsTo_iff_holds w n e).mpr (gridDigits?_holds h)

/-- What is found is not zero, which is rounded to no positive word. -/
theorem gridDigits?_pos {tie : TieRule} {w n : Nat} {e : Int} (hw : 0 < w)
    (h : gridDigits? tie (Interval.ofWord w) e = some n) : 0 < n := by
  refine Nat.pos_of_ne_zero fun hzero => ((gridDigits?_roundsTo h).pos hw).ne' ?_
  rw [hzero, Nat.cast_zero, zero_mul]

/-! ### Seventeen digits -/

/-- The magnitude is not below the place before its point. -/
theorem pow_pointPlace_le {w : Nat} (hw : 0 < w) :
    (10 : ℚ) ^ (pointPlace w - 1) * 2 ^ 1074 ≤ significand w * 2 ^ scale w := by
  obtain ⟨k, hk, hle⟩ := pointPlace_spec (significand_pos hw)
  have hcast := Nat.cast_le (α := ℚ).mpr hle
  simp only [Nat.cast_mul, Nat.cast_pow, Nat.cast_ofNat] at hcast
  rw [hk, zpow_sub₀ (by norm_num), zpow_natCast, zpow_ofNat, div_mul_eq_mul_div,
    div_le_iff₀ (pow_pos (by norm_num) 330)]
  exact hcast

/-- Seventeen digits before the place of the point make a grid whose steps are less than the
width of the interval. -/
theorem gridUnit_le {w : Nat} (hw : 0 < w) :
    10 ^ 16 * (gridUnit (pointPlace w - 17)).1
      ≤ 4 * (significand w * (2 ^ scale w * (gridUnit (pointPlace w - 17)).2)) := by
  obtain ⟨-, hden, hunit⟩ := gridUnit_spec (pointPlace w - 17)
  have hplace := pow_pointPlace_le hw
  have hq : (0 : ℚ) < (gridUnit (pointPlace w - 17)).2 := Nat.cast_pos.mpr hden
  have hsteps : (10 : ℚ) ^ 16 * 10 ^ (pointPlace w - 17) = 10 ^ (pointPlace w - 1) := by
    rw [← zpow_natCast, ← zpow_add₀ (by norm_num)]
    congr 1
    push_cast
    ring
  have hle : (10 : ℚ) ^ 16 * ((gridUnit (pointPlace w - 17)).1 / (gridUnit (pointPlace w - 17)).2)
      ≤ 4 * (significand w * 2 ^ scale w) := by
    rw [hunit, ← mul_assoc, hsteps, pow_add 2 2 1074]
    generalize (2 : ℚ) ^ 1074 = least at hplace ⊢
    linarith
  rw [← mul_div_assoc, div_le_iff₀ hq] at hle
  have hnat : 10 ^ 16 * (gridUnit (pointPlace w - 17)).1
      ≤ 4 * (significand w * 2 ^ scale w) * (gridUnit (pointPlace w - 17)).2 := by
    exact_mod_cast hle
  rwa [Nat.mul_assoc, Nat.mul_assoc] at hnat

/-- On a grid whose steps are less than the width of a word's interval, one of the two neighbours
of the word's value lies in the interval. -/
theorem holds_neighbour {w num den value : Nat} (hnum : 0 < num)
    (hvalue : value = 4 * (significand w * (2 ^ scale w * den))) (hfine : 10 ^ 16 * num ≤ value) :
    (Interval.ofWord w).holds (value / num * num) den = true ∨
      (Interval.ofWord w).holds ((value / num + 1) * num) den = true := by
  have hlt := significand_lt w
  have hsplit := Nat.div_add_mod value num
  have hmod := Nat.mod_lt value hnum
  have hunder := @holds_of_bounds w (value / num * num) den _ rfl
  have habove := @holds_of_bounds w ((value / num + 1) * num) den _ rfl
  have hsucc : (value / num + 1) * num = value / num * num + num := Nat.succ_mul _ _
  rw [Nat.mul_comm] at hsplit
  rw [hsucc] at habove ⊢
  generalize 2 ^ scale w * den = unit at hvalue hunder habove
  by_cases hpower : significand w = 2 ^ 52
  · -- above a power of two the interval has its full width, and a step is less than half of it
    refine .inr (habove ?_ ?_) <;> rw [hpower] at hvalue ⊢ <;> omega
  · -- elsewhere the step is less than the width, so one of the two ends is near enough
    have htop : significand w * unit ≤ (2 ^ 53 - 1) * unit := Nat.mul_le_mul_right _ (by omega)
    have hreach : reachBelow w = 2 := if_neg fun h => hpower h.1
    rw [hreach] at hunder habove
    rcases Nat.lt_or_ge (value % num) (2 * unit) with hnear | hfar
    · exact .inl (hunder (by omega) (by omega))
    · exact .inr (habove (by omega) (by omega))

theorem exists_gridDigits (tie : TieRule) {w : Nat} {e : Int}
    (hfine : 10 ^ 16 * (gridUnit e).1
      ≤ 4 * (significand w * (2 ^ scale w * (gridUnit e).2))) :
    ∃ n, gridDigits? tie (Interval.ofWord w) e = some n := by
  obtain ⟨hnum, -, -⟩ := gridUnit_spec e
  have hvalue : (Interval.ofWord w).center * (gridUnit e).2
      = 4 * (significand w * (2 ^ scale w * (gridUnit e).2)) := by
    rw [Interval.ofWord, Nat.mul_assoc, Nat.mul_assoc]
  have hsomewhere := holds_neighbour hnum hvalue (hvalue ▸ hfine)
  unfold gridDigits?
  simp only
  split
  · exact ⟨_, rfl⟩
  · exact ⟨_, rfl⟩
  · exact ⟨_, rfl⟩
  · next hunder habove =>
    rw [hunder, habove] at hsomewhere
    simp at hsomewhere

/-! ### The digits -/

/-- What a decimal is worth. -/
def Digits.value (d : Digits) : ℚ :=
  decimalNatural d.digits * 10 ^ (d.point - d.digits.length)

/-- A decimal has digits, and the first of them is not 0. -/
structure Digits.Leading (d : Digits) : Prop where
  isDigit : ∀ c ∈ d.digits, c.isDigit = true
  head : ∃ c ds, d.digits = c :: ds ∧ c ≠ '0'

/-- Only zeros at the end are trimmed. -/
theorem toDigits_eq_trimmedDigits_append (n : Nat) :
    ∃ k, Nat.toDigits 10 n = trimmedDigits n ++ List.replicate k '0' := by
  have hsplit : trimmedDigits n ++ (Nat.toDigits 10 n).rtakeWhile (· == '0') = Nat.toDigits 10 n :=
    List.rdropWhile_append_rtakeWhile
  have hzeros : ∀ c ∈ (Nat.toDigits 10 n).rtakeWhile (· == '0'), c = '0' :=
    fun c hc => beq_iff_eq.mp (List.mem_rtakeWhile_imp (p := (· == '0')) hc)
  rw [List.eq_replicate_of_mem hzeros] at hsplit
  exact ⟨_, hsplit.symm⟩

/-- The decimal of a multiple of a power of ten is worth that multiple. -/
theorem Digits.ofMultiple_spec {n : Nat} (hn : 0 < n) (e : Int) :
    (Digits.ofMultiple n e).Leading ∧ (Digits.ofMultiple n e).value = n * 10 ^ e := by
  obtain ⟨k, hk⟩ := toDigits_eq_trimmedDigits_append n
  have hnatural : decimalNatural (trimmedDigits n) * 10 ^ k = n := by
    rw [← decimalNatural_append_zeros, ← hk, decimalNatural_toDigits]
  have hlength : (Nat.toDigits 10 n).length = (trimmedDigits n).length + k := by
    rw [hk, List.length_append, List.length_replicate]
  refine ⟨⟨fun c hc => ?_, ?_⟩, ?_⟩
  · have hmem : c ∈ Nat.toDigits 10 n := hk ▸ List.mem_append_left _ hc
    exact isDigit_of_mem_digits hmem
  · cases hdigits : trimmedDigits n with
    | nil =>
      rw [hdigits, decimalNatural_nil, Nat.zero_mul] at hnatural
      omega
    | cons c ds =>
      refine ⟨c, ds, hdigits, fun hzero => head?_toDigits hn ?_⟩
      rw [hk, hdigits, hzero]
      rfl
  · have hexponent : (ofMultiple n e).point - ((ofMultiple n e).digits.length : Int) = e + k := by
      show e + ((Nat.toDigits 10 n).length : Int) - (trimmedDigits n).length = e + k
      omega
    have hcast : (n : ℚ) = decimalNatural (trimmedDigits n) * 10 ^ k := by
      exact_mod_cast hnatural.symm
    show (decimalNatural (trimmedDigits n) : ℚ) * 10 ^ (_ - _ : Int) = _
    rw [hexponent, hcast, zpow_add₀ (by norm_num), zpow_natCast, mul_left_comm, mul_comm, mul_assoc]

/-- The shortest decimal is the first that is found, on grids of one digit, two digits and so on. -/
theorem shortest_found (tie : TieRule) {w : Nat} (hw : 0 < w) :
    ∃ i n : Nat, gridDigits? tie (Interval.ofWord w) (pointPlace w - (i + 1 : Nat)) = some n ∧
      0 < n ∧ shortest tie w = Digits.ofMultiple n (pointPlace w - (i + 1 : Nat)) ∧
      ∀ j < i, gridDigits? tie (Interval.ofWord w) (pointPlace w - (j + 1 : Nat)) = none := by
  unfold shortest
  simp only
  cases hfound : (List.range 17).findSome? fun i =>
      (gridDigits? tie (Interval.ofWord w) (pointPlace w - (i + 1 : Nat))).map
        (Digits.ofMultiple · (pointPlace w - (i + 1 : Nat))) with
  | some d =>
    obtain ⟨before, i, after, hrange, hgrid, hnone⟩ := List.findSome?_eq_some_iff.mp hfound
    obtain ⟨n, hn, rfl⟩ := Option.map_eq_some_iff.mp hgrid
    have hi : i < 17 := by
      have hmem : i ∈ before ++ i :: after := List.mem_append_right _ List.mem_cons_self
      exact List.mem_range.mp (hrange ▸ hmem)
    refine ⟨i, n, hn, gridDigits?_pos hw hn, rfl, fun j hj => ?_⟩
    -- the grids before are those of fewer digits
    have hbefore : j ∈ before := by
      have hmem : j ∈ before ++ i :: after := hrange ▸ List.mem_range.mpr (hj.trans hi)
      have hsorted : (before ++ i :: after).Pairwise (· < ·) := hrange ▸ List.pairwise_lt_range
      rcases List.mem_append.mp hmem with hbefore | hafter
      · exact hbefore
      · obtain ⟨hlater, -⟩ := List.pairwise_cons.mp (List.pairwise_append.mp hsorted).2.1
        rcases List.mem_cons.mp hafter with rfl | hafter
        · exact absurd hj (Nat.lt_irrefl _)
        · exact absurd hj (Nat.lt_asymm (hlater j hafter))
    exact Option.map_eq_none_iff.mp (hnone j hbefore)
  | none =>
    -- the last grid has seventeen digits, and nothing was found on it either
    obtain ⟨n, hn⟩ := exists_gridDigits tie (gridUnit_le hw)
    have hlast := List.findSome?_eq_none_iff.mp hfound 16 (by decide)
    rw [Option.map_eq_none_iff, show ((16 + 1 : Nat) : Int) = 17 from rfl] at hlast
    exact absurd (hn.symm.trans hlast) nofun

/-- The shortest decimal of a positive word has digits, and it is rounded to the word. -/
theorem shortest_spec (tie : TieRule) {w : Nat} (hw : 0 < w) :
    (shortest tie w).Leading ∧ RoundsTo w (shortest tie w).value := by
  -- whichever grid it was found on, what is found is in the interval
  obtain ⟨i, n, hdigits, hpos, hshortest, -⟩ := shortest_found tie hw
  obtain ⟨hleading, hvalue⟩ := Digits.ofMultiple_spec hpos (pointPlace w - (i + 1 : Nat))
  rw [hshortest]
  exact ⟨hleading, hvalue ▸ gridDigits?_roundsTo hdigits⟩

end ToyCpu.Decimal
