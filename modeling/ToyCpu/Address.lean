import ToyCpu.Text.Pad

/-!
# Addresses

Cells are addressed by 32-bit words, of which the last has no successor. In reports an address
has at least four digits.

* `Address`, `addressText` — an address, and how it is written.
* `succ_le_iff`, `not_lt_of_succ_eq_zero` — what lies above an address.
-/

namespace ToyCpu

/-- A cell's address. -/
abbrev Address := UInt32

/-- An address in reports: at least four digits. -/
def addressText (a : Address) : String :=
  Text.padLeft 4 '0' (Nat.repr a.toNat)

/-! ### Successors -/

theorem toNat_succ_of_ne_zero {a : Address} (h : a + 1 ≠ 0) : (a + 1).toNat = a.toNat + 1 := by
  have hlt := a.toNat_lt
  have hne : (a + 1).toNat ≠ 0 := fun h0 => h (UInt32.toNat_inj.mp h0)
  rw [UInt32.toNat_add] at hne ⊢
  change (a.toNat + 1) % 2 ^ 32 ≠ 0 at hne
  change (a.toNat + 1) % 2 ^ 32 = a.toNat + 1
  omega

/-- Above an address that has a successor lies what is at the successor or above that. -/
theorem succ_le_iff {a x : Address} (h : a + 1 ≠ 0) : a + 1 ≤ x ↔ a < x := by
  have hsucc := toNat_succ_of_ne_zero h
  rw [UInt32.le_iff_toNat_le, UInt32.lt_iff_toNat_lt, hsucc]
  omega

theorem lt_succ_of_ne_zero {a : Address} (h : a + 1 ≠ 0) : a < a + 1 :=
  (succ_le_iff h).mp (UInt32.le_refl _)

/-- Only the last address has no successor. -/
theorem toNat_of_succ_eq_zero {a : Address} (h : a + 1 = 0) : a.toNat = 2 ^ 32 - 1 := by
  have hsucc : (a.toNat + 1) % 2 ^ 32 = 0 := congrArg UInt32.toNat h
  have ha := a.toNat_lt
  omega

/-- Nothing lies above it. -/
theorem not_lt_of_succ_eq_zero {a : Address} (h : a + 1 = 0) (x : Address) : ¬ a < x := by
  have hx := x.toNat_lt
  rw [UInt32.lt_iff_toNat_lt, toNat_of_succ_eq_zero h]
  omega

end ToyCpu
