import ToyCpu.Decimal.Binary64

/-!
# Floats and their words

A float is its word of 64 bits, and every word is one of a float, but for those beyond infinity,
which all stand for the one value that is not a number. So a float is known from its sign and
its magnitude.

* `ofBits_toBits`, `toBits_ofBits` — floats and words.
* `fields_ofMagnitude`, `ofMagnitude_magnitude` — signs and magnitudes.
* `isFinite_iff`, `eq_nan` — what is below infinity, and what is beyond.
-/

namespace ToyCpu.Binary64

open Float.Model
open UnpackedFloat hiding pack unpack

/-! ### The fields of a word -/

/-- A word of the format. -/
abbrev Word := BitVec Format.binary64.numBits

/-- The word of a float. -/
def wordOf (x : Float) : Word := x.toBits.toBitVec

theorem wordOf_toNat (x : Float) : (wordOf x).toNat = x.toBits.toNat := rfl

/-- The mantissa is in the last 52 bits, and the exponent in the eleven before them. -/
theorem unpackMantissa_toNat (b : Word) : (unpackMantissa b).toNat = b.toNat % 2 ^ 52 := by
  rw [unpackMantissa, BitVec.toNat_cast, BitVec.extractLsb_toNat]
  exact congrArg (· % 2 ^ 52) (Nat.shiftRight_zero)

theorem unpackExponent_toNat (b : Word) :
    (unpackExponent b).toNat = b.toNat / 2 ^ 52 % 2 ^ 11 := by
  rw [unpackExponent, BitVec.toNat_cast, BitVec.extractLsb_toNat]
  exact congrArg (· % 2 ^ 11) (Nat.shiftRight_eq_div_pow b.toNat 52)

/-- The largest exponent is the one of what is not finite. -/
theorem unpackExponent_eq_max_iff (b : Word) :
    unpackExponent b = -1#_ ↔ b.toNat / 2 ^ 52 % 2 ^ 11 = 2 ^ 11 - 1 := by
  rw [← BitVec.toNat_inj, unpackExponent_toNat]
  rfl

theorem unpackMantissa_eq_zero_iff (b : Word) :
    unpackMantissa b = 0#_ ↔ b.toNat % 2 ^ 52 = 0 := by
  rw [← BitVec.toNat_inj, unpackMantissa_toNat]
  rfl

/-- A word is made of its sign, its exponent and its mantissa. -/
theorem packComponents_fields (b : Word) :
    packComponents .binary64 (.ofBitVec (unpackSign b)) (unpackExponent b) (unpackMantissa b)
      = b := by
  have hsign : (Sign.ofBitVec (unpackSign b)).toBitVec = unpackSign b := by
    generalize unpackSign b = sign
    revert sign
    decide
  rw [packComponents, hsign]
  -- the fields lie next to each other, and together they are the whole word
  show b.extractLsb' 63 1 ++ b.extractLsb' 52 11 ++ b.extractLsb' 0 52 = b
  rw [BitVec.extractLsb'_append_extractLsb'_eq_extractLsb' (show 63 = 52 + 11 from rfl),
    BitVec.extractLsb'_append_extractLsb'_eq_extractLsb' (show 52 = 0 + 52 from rfl)]
  exact BitVec.extractLsb'_eq_self

/-! ### Unpacking and packing -/

theorem log2_significand {n : Nat} (h : n < 2 ^ 52) : (2 ^ 52 + n).log2 = 52 :=
  (Nat.log2_eq_iff (by omega)).mpr ⟨by omega, by omega⟩

/-- The leading bit of a normal float is not in its word. -/
theorem toNat_implicit_append (m : BitVec 52) : (1#1 ++ m).toNat = 2 ^ 52 + m.toNat := by
  rw [BitVec.toNat_append, ← Nat.shiftLeft_add_eq_or_of_lt m.isLt]
  rfl

/-- What a word unpacks into, by the class of the word. -/
inductive Unpacked (b : Word) : UnpackedFloat → Prop
  | infinite (hexponent : unpackExponent b = -1#_) (hmantissa : unpackMantissa b = 0#_) :
      Unpacked b (.infinity (.ofBitVec (unpackSign b)))
  | nan (hexponent : unpackExponent b = -1#_) (hmantissa : unpackMantissa b ≠ 0#_) :
      Unpacked b .notANumber
  | zero (hexponent : unpackExponent b = 0#_) (hmantissa : unpackMantissa b = 0#_) :
      Unpacked b (.zero (.ofBitVec (unpackSign b)))
  | subnormal (hexponent : unpackExponent b = 0#_) (h : 0 < (unpackMantissa b).toNat) :
      Unpacked b (.finite (.ofBitVec (unpackSign b)) (unpackMantissa b).toNat (-1074) h)
  | normal (hmax : unpackExponent b ≠ -1#_) (hzero : unpackExponent b ≠ 0#_)
      (h : 0 < 2 ^ 52 + (unpackMantissa b).toNat) :
      Unpacked b (.finite (.ofBitVec (unpackSign b)) (2 ^ 52 + (unpackMantissa b).toNat)
        ((unpackExponent b).toNat - 1075) h)

/-- The significand of a normal float may be given in another form, as may its exponent. -/
theorem Unpacked.of_normal {b : Word} {m : Nat} {e : Int} (hmax : unpackExponent b ≠ -1#_)
    (hzero : unpackExponent b ≠ 0#_) (hm : m = 2 ^ 52 + (unpackMantissa b).toNat)
    (he : e = (unpackExponent b).toNat - 1075) (h : 0 < m) :
    Unpacked b (.finite (.ofBitVec (unpackSign b)) m e h) := by
  subst hm he
  exact .normal hmax hzero h

/-- A word unpacks by its class: the exponents at both ends have their own meaning. -/
theorem unpacked (b : Word) : Unpacked b (UnpackedFloat.unpack .binary64 b) := by
  have hbias : (Format.binary64.exponentBias : Int) = 1023 := rfl
  unfold UnpackedFloat.unpack
  by_cases hmax : unpackExponent b = -1#_
  · by_cases hzero : unpackMantissa b = 0#_
    · rw [if_pos hmax, if_pos hzero]
      exact .infinite hmax hzero
    · rw [if_pos hmax, if_neg hzero]
      exact .nan hmax hzero
  · by_cases hnone : unpackExponent b = 0#_
    · by_cases hzero : unpackMantissa b = 0#_
      · rw [if_neg hmax, if_pos hnone, dif_pos hzero]
        exact .zero hnone hzero
      · rw [if_neg hmax, if_pos hnone, dif_neg hzero]
        have hexponent : ((unpackExponent b).toNat : Int) -
            (Format.binary64.exponentBias + Format.binary64.mantissaBitsWithoutImplicit) + 1
              = -1074 := by
          rw [hnone, hbias]
          rfl
        have hpos : 0 < (unpackMantissa b).toNat :=
          Nat.pos_of_ne_zero fun h => hzero (BitVec.toNat_inj.mp h)
        rw [hexponent]
        exact .subnormal hnone hpos
    · rw [if_neg hmax, if_neg hnone]
      exact .of_normal hmax hnone (toNat_implicit_append (unpackMantissa b)) rfl _

/-- What has been unpacked from a word packs into that word. -/
theorem pack_unpack {b : Word} (h : Format.binary64.Valid b) :
    UnpackedFloat.pack .binary64 (UnpackedFloat.unpack .binary64 b) = b := by
  have hfields := packComponents_fields b
  have hmantissa : (unpackMantissa b).toNat < 2 ^ 52 := (unpackMantissa b).isLt
  have hkept : BitVec.ofNat _ (unpackMantissa b).toNat = unpackMantissa b := by
    rw [BitVec.ofNat_toNat, BitVec.setWidth_eq]
  have hunpacked := unpacked b
  generalize UnpackedFloat.unpack .binary64 b = u at hunpacked ⊢
  cases hunpacked with
  | infinite hexp hmant =>
    rw [hexp, hmant] at hfields
    exact hfields
  -- a valid word beyond infinity is the one that the value is packed into
  | nan hexp hmant => exact (h.eq_packedNaN hexp hmant).symm
  | zero hexp hmant =>
    rw [hexp, hmant] at hfields
    exact hfields
  | subnormal hexp hpos =>
    -- too few bits for the implicit one, so the exponent stays zero
    have hlog : (unpackMantissa b).toNat.log2 + 1 ≠ Format.binary64.mantissaBits := by
      have hlt := (Nat.log2_lt (by omega)).mpr hmantissa
      show _ ≠ 53
      omega
    rw [hexp] at hfields
    unfold UnpackedFloat.pack
    rw [if_neg (by decide), if_neg hlog, hkept]
    exact hfields
  | normal hmax hzero hpos =>
    have hexp : (unpackExponent b).toNat < 2 ^ 11 := (unpackExponent b).isLt
    have hexpMax : (unpackExponent b).toNat ≠ 2 ^ 11 - 1 := fun h =>
      hmax (BitVec.toNat_inj.mp h)
    have hbiased : (((unpackExponent b).toNat : Int) - 1075 + Format.binary64.exponentBias +
        Format.binary64.mantissaBitsWithoutImplicit).toNat = (unpackExponent b).toNat := by
      show (((unpackExponent b).toNat : Int) - 1075 + 1023 + 52).toNat = _
      omega
    have hroom : ¬ 2 ^ Format.binary64.exponentBits ≤ (unpackExponent b).toNat + 1 := by
      show ¬ 2 ^ 11 ≤ _
      omega
    have hlog : (2 ^ 52 + (unpackMantissa b).toNat).log2 + 1 = Format.binary64.mantissaBits := by
      rw [log2_significand hmantissa]
      rfl
    have hmant : BitVec.ofNat 52 (2 ^ 52 + (unpackMantissa b).toNat) = unpackMantissa b := by
      rw [← BitVec.toNat_inj, BitVec.toNat_ofNat, Nat.add_mod_left, Nat.mod_eq_of_lt hmantissa]
    unfold UnpackedFloat.pack
    simp only [hbiased]
    rw [if_neg hroom, if_pos hlog, BitVec.ofNat_toNat, BitVec.setWidth_eq]
    exact (congrArg _ hmant).trans hfields

/-! ### Floats and words -/

/-- A float is the one of its word. -/
theorem ofBits_toBits (x : Float) : Float.ofBits x.toBits = x := by
  obtain ⟨bits, hvalid⟩ := x
  have hpack := pack_unpack hvalid
  have hbits : (Float.Model.ofBits bits).toBits = bits := UInt64.toBitVec_inj.mp hpack
  show Float.ofModel (Float.Model.ofBits bits) = _
  generalize Float.Model.ofBits bits = model at hbits
  subst hbits
  rfl

/-- Words up to infinity, of either sign, are those of their floats. -/
theorem toBits_ofBits {b : UInt64} (h : b.toNat % 2 ^ 63 ≤ infinityWord) :
    (Float.ofBits b).toBits = b := by
  have hvalid : Format.binary64.Valid b.toBitVec := by
    refine ⟨fun hmax hmant => absurd ?_ hmant⟩
    rw [unpackExponent_eq_max_iff] at hmax
    rw [unpackMantissa_eq_zero_iff]
    have hword : b.toBitVec.toNat = b.toNat := rfl
    rw [hword] at hmax ⊢
    rw [infinityWord] at h
    omega
  show UInt64.ofBitVec (UnpackedFloat.pack .binary64 (UnpackedFloat.unpack .binary64 b.toBitVec)) = b
  rw [pack_unpack hvalid]

/-- A float is put together from its sign and its magnitude. -/
theorem ofMagnitude_magnitude (x : Float) : ofMagnitude (isNegative x) (magnitude x) = x := by
  have hword := x.toBits.toNat_lt
  have hbits : (if isNegative x then 2 ^ 63 + magnitude x else magnitude x) = x.toBits.toNat := by
    unfold isNegative magnitude
    by_cases hneg : 2 ^ 63 ≤ x.toBits.toNat
    · rw [if_pos (decide_eq_true hneg)]
      omega
    · rw [if_neg (by simpa using hneg)]
      omega
  rw [ofMagnitude, hbits, UInt64.ofNat_toNat, ofBits_toBits]

/-- Up to infinity the magnitude and the sign are those that a float was put together from. -/
theorem fields_ofMagnitude {negative : Bool} {w : Nat} (h : w ≤ infinityWord) :
    magnitude (ofMagnitude negative w) = w ∧ isNegative (ofMagnitude negative w) = negative := by
  rw [infinityWord] at h
  unfold magnitude isNegative ofMagnitude
  cases negative with
  | false =>
    have hnat : (UInt64.ofNat w).toNat = w := UInt64.toNat_ofNat_of_lt' (by rw [UInt64.size]; omega)
    have hkept := toBits_ofBits (b := UInt64.ofNat w) (by rw [hnat, infinityWord]; omega)
    simp only [Bool.false_eq_true, if_false]
    rw [hkept, hnat]
    exact ⟨by omega, decide_eq_false (by omega)⟩
  | true =>
    have hnat : (UInt64.ofNat (2 ^ 63 + w)).toNat = 2 ^ 63 + w :=
      UInt64.toNat_ofNat_of_lt' (by rw [UInt64.size]; omega)
    have hkept := toBits_ofBits (b := UInt64.ofNat (2 ^ 63 + w)) (by rw [hnat, infinityWord]; omega)
    simp only [if_true]
    rw [hkept, hnat]
    exact ⟨by omega, decide_eq_true (by omega)⟩

/-! ### Finite floats -/

/-- The finite floats are those below infinity. -/
theorem isFinite_iff (x : Float) : x.isFinite = true ↔ magnitude x < infinityWord := by
  have hmax := unpackExponent_eq_max_iff (wordOf x)
  -- only the infinities and the value that is not a number have the largest exponent
  have hfinite : x.isFinite = true ↔ unpackExponent (wordOf x) ≠ -1#_ := by
    show (UnpackedFloat.unpack .binary64 (wordOf x)).isFinite = true ↔ _
    have hunpacked := unpacked (wordOf x)
    generalize UnpackedFloat.unpack .binary64 (wordOf x) = u at hunpacked ⊢
    cases hunpacked with
    | infinite hexp => exact ⟨nofun, fun h => absurd hexp h⟩
    | nan hexp => exact ⟨nofun, fun h => absurd hexp h⟩
    | zero hexp => exact ⟨fun _ h => absurd (hexp.symm.trans h) (by decide), fun _ => rfl⟩
    | subnormal hexp => exact ⟨fun _ h => absurd (hexp.symm.trans h) (by decide), fun _ => rfl⟩
    | normal hmax => exact ⟨fun _ => hmax, fun _ => rfl⟩
  have hlt := x.toBits.toNat_lt
  rw [hfinite, Ne, hmax, wordOf_toNat, magnitude, infinityWord]
  omega

/-- Beyond infinity there is only the value that is not a number. -/
theorem eq_nan {x : Float} (h : infinityWord < magnitude x) : x = nan := by
  have hlt := x.toBits.toNat_lt
  rw [magnitude, infinityWord] at h
  have hmax : unpackExponent (wordOf x) = -1#_ := by
    rw [unpackExponent_eq_max_iff, wordOf_toNat]
    omega
  have hmant : unpackMantissa (wordOf x) ≠ 0#_ := by
    rw [Ne, unpackMantissa_eq_zero_iff, wordOf_toNat]
    omega
  have hnan : wordOf x = packedNaN .binary64 := x.toModel.valid.eq_packedNaN hmax hmant
  have hbits : x.toBits = nan.toBits := UInt64.toBitVec_inj.mp hnan
  rw [← ofBits_toBits x, hbits, ofBits_toBits]

end ToyCpu.Binary64
