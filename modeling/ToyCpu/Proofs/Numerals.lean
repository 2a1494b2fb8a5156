import ToyCpu.Decimal.Style
import ToyCpu.Proofs.DecimalGrammar
import ToyCpu.Proofs.Shortest
import ToyCpu.Proofs.Words

/-!
# Numerals that read back

A float is written as a numeral, and a numeral has one text for each way of writing it: with or
without a power of ten. The text is read as the numeral it was written from, and the numeral as
the float, because the digits written are ones that are rounded to the float.

* `Numeral.spell`, `Numeral.Spellable` — the text of a numeral, and the numerals that have one.
* `Numeral.ofChars?_spell` — the text reads back as the numeral.
* `Style.write_digits`, `Style.write_spells` — a finite float is written as the text of a numeral
  that is read as it.
-/

namespace ToyCpu

open Binary64 Decimal

/-! ### The text of a numeral -/

namespace Numeral

/-- The power of ten as it is written, with its sign. -/
def spellPower (e : Int) : List Char :=
  'e' :: (if e < 0 then '-' else '+') :: Nat.toDigits 10 e.natAbs

/-- The text of a numeral, with its power of ten or without it. -/
def spell (numeral : Numeral) (powered : Bool) : List Char :=
  (if numeral.negative then ['-'] else []) ++ numeral.whole
    ++ (if numeral.fraction.isEmpty then [] else '.' :: numeral.fraction)
    ++ (if powered then spellPower numeral.exponent else [])

/-- The numerals that have a text: with digits before the point, of which the first is 0 only if
there are no others, and with no power of ten unless it is written. -/
structure Spellable (numeral : Numeral) (powered : Bool) : Prop where
  whole : ∀ c ∈ numeral.whole, c.isDigit = true
  fraction : ∀ c ∈ numeral.fraction, c.isDigit = true
  nonempty : numeral.whole ≠ []
  leading : ∀ ds, numeral.whole = '0' :: ds → ds = []
  exponent : powered = false → numeral.exponent = 0

/-- What a numeral is worth, but for its sign. -/
def value (numeral : Numeral) : ℚ :=
  decimalNatural (numeral.whole ++ numeral.fraction)
    * 10 ^ (numeral.exponent - numeral.fraction.length)

variable {numeral : Numeral} {powered : Bool}

theorem noDigitFirst_power (numeral : Numeral) (powered : Bool) {rest : List Char}
    (hrest : NoDigitFirst rest) :
    NoDigitFirst ((if powered then spellPower numeral.exponent else []) ++ rest) := by
  cases powered
  · exact hrest
  · exact noDigitFirst_cons (by decide)

theorem noDigitFirst_point (ds : List Char) {rest : List Char} (hrest : NoDigitFirst rest) :
    NoDigitFirst ((if ds.isEmpty then [] else '.' :: ds) ++ rest) := by
  cases ds
  · exact hrest
  · exact noDigitFirst_cons (by decide)

/-! ### Reading it back -/

theorem isPower_spellPower (e : Int) : IsPower (spellPower e) e := by
  have hds : DigitsSpell 10 (Nat.toDigits 10 e.natAbs) e.natAbs :=
    digitsSpell_ten_iff.mpr
      ⟨fun c hc => isDigit_of_mem_digits hc, (decimalNatural_toDigits _).symm⟩
  unfold spellPower
  by_cases hneg : e < 0
  · have hpower := IsPower.some (.inl rfl) .minus hds Nat.toDigits_ne_nil
    rw [if_pos rfl, show -(e.natAbs : Int) = e by omega] at hpower
    rwa [if_pos hneg]
  · have hpower := IsPower.some (.inl rfl) .plus hds Nat.toDigits_ne_nil
    rw [if_neg nofun, show (e.natAbs : Int) = e by omega] at hpower
    rwa [if_neg hneg]

/-- The text of a numeral reads back as the numeral. -/
theorem ofChars?_spell (h : numeral.Spellable powered) :
    ofChars? (numeral.spell powered) = some numeral := by
  obtain ⟨negative, whole, fraction, exponent⟩ := numeral
  have hsign : IsSign (if negative then ['-'] else []) negative := by
    cases negative
    · exact .none
    · exact .minus
  have hpower : IsPower (if powered then spellPower exponent else []) exponent := by
    cases powered with
    | false =>
      obtain rfl : exponent = 0 := h.exponent rfl
      exact .none
    | true => exact isPower_spellPower exponent
  unfold spell
  simp only [List.append_assoc]
  -- the point is written only with digits after it
  cases fraction with
  | nil =>
    exact ofChars?_append false hsign h.whole h.fraction (.inl h.nonempty) (fun _ => rfl) hpower
  | cons c cs => exact ofChars?_append true hsign h.whole h.fraction (.inl h.nonempty) nofun hpower

/-- A numeral whose worth is rounded to a word is read as the float of the word. -/
theorem toFloat_eq {w : Nat} (h : numeral.Spellable powered) (hfinite : w < infinityWord)
    (hround : RoundsTo w numeral.value) : numeral.toFloat = ofMagnitude numeral.negative w := by
  have hlt : decimalNatural (numeral.whole ++ numeral.fraction)
      < 10 ^ (numeral.whole ++ numeral.fraction).length := by
    refine decimalNatural_lt fun c hc => ?_
    rcases List.mem_append.mp hc with hc | hc
    · exact h.whole c hc
    · exact h.fraction c hc
  unfold toFloat
  simp only
  rw [hround.scaledWord_eq hfinite hlt]

end Numeral

/-! ### The text of a float -/

namespace Decimal

open Numeral (spellPower)

/-- A numeral is worth as much as a decimal if it has the decimal's digits, with zeros at the end
for every place that its point is further on. -/
theorem value_eq_value {numeral : Numeral} {d : Digits} (zeros : Nat)
    (hdigits : decimalNatural (numeral.whole ++ numeral.fraction)
      = decimalNatural d.digits * 10 ^ zeros)
    (hpoint : numeral.exponent - numeral.fraction.length + zeros = d.point - d.digits.length) :
    numeral.value = d.value := by
  unfold Numeral.value Digits.value
  rw [hdigits, ← hpoint, zpow_add₀ (by norm_num), zpow_natCast, Nat.cast_mul, Nat.cast_pow,
    Nat.cast_ofNat, mul_assoc, mul_comm (_ ^ zeros)]

/-- A text, after a sign, is that of a numeral that is worth as much as a decimal, and is written
with its power of ten or without it. -/
def Spells (negative powered : Bool) (text : List Char) (d : Digits) : Prop :=
  ∃ numeral : Numeral, numeral.Spellable powered ∧
    numeral.negative = negative ∧
    numeral.spell powered = (if negative then ['-'] else []) ++ text ∧
    numeral.value = d.value

theorem isDigit_of_mem_zeros {n : Nat} {c : Char} (h : c ∈ List.replicate n '0') :
    c.isDigit = true := by
  rw [List.eq_of_mem_replicate h]
  rfl

variable {d : Digits} (negative : Bool)

/-- The digits come after the point. -/
theorem spells_before (h : d.Leading) {n : Nat} (hpoint : d.point = -n) :
    Spells negative false ('0' :: '.' :: List.replicate n '0' ++ d.digits) d := by
  obtain ⟨c, ds, hdigits, -⟩ := h.head
  refine ⟨⟨negative, ['0'], List.replicate n '0' ++ d.digits, 0⟩,
    ⟨?_, ?_, nofun, ?_, fun _ => rfl⟩, rfl, ?_, value_eq_value 0 ?_ ?_⟩
  · rintro c ⟨⟩
    · rfl
    · contradiction
  · intro c hc
    rcases List.mem_append.mp hc with hc | hc
    · exact isDigit_of_mem_zeros hc
    · exact h.isDigit c hc
  · rintro ds ⟨⟩
    rfl
  · have hnonempty : (List.replicate n '0' ++ d.digits).isEmpty = false := by
      rw [List.isEmpty_eq_false_iff, hdigits]
      exact List.append_ne_nil_of_right_ne_nil _ (List.cons_ne_nil c ds)
    simp only [Numeral.spell, hnonempty]
    simp
  · show decimalNatural (List.replicate (n + 1) '0' ++ d.digits) = _
    rw [decimalNatural_zeros_append, Nat.pow_zero, Nat.mul_one]
  · simp only [List.length_append, List.length_replicate]
    omega

/-- The point is among the digits. -/
theorem spells_among (h : d.Leading) {n : Nat} (hpoint : d.point = (n + 1 : Nat))
    (hlt : n + 1 < d.digits.length) :
    Spells negative false (d.digits.take (n + 1) ++ '.' :: d.digits.drop (n + 1)) d := by
  obtain ⟨c, ds, hdigits, hc⟩ := h.head
  refine ⟨⟨negative, d.digits.take (n + 1), d.digits.drop (n + 1), 0⟩,
    ⟨?_, ?_, ?_, ?_, fun _ => rfl⟩, rfl, ?_, value_eq_value 0 ?_ ?_⟩
  · exact fun c hc => h.isDigit c (List.mem_of_mem_take hc)
  · exact fun c hc => h.isDigit c (List.mem_of_mem_drop hc)
  · rw [hdigits]
    exact nofun
  · intro zs hzs
    rw [hdigits, List.take_succ_cons] at hzs
    exact absurd (List.cons.inj hzs).1 hc
  · have hnonempty : (d.digits.drop (n + 1)).isEmpty = false := by
      rw [List.isEmpty_eq_false_iff, Ne, List.drop_eq_nil_iff]
      omega
    simp only [Numeral.spell, hnonempty]
    simp
  · rw [List.take_append_drop, Nat.pow_zero, Nat.mul_one]
  · simp only [List.length_drop]
    omega

/-- Zeros come after the digits, and maybe one more after the point. -/
theorem spells_after (keepsPoint : Bool) (h : d.Leading) {n : Nat}
    (hpoint : d.point = (d.digits.length + n : Nat)) :
    Spells negative false (d.digits ++ List.replicate n '0' ++ if keepsPoint then ['.', '0'] else [])
      d := by
  obtain ⟨c, ds, hdigits, hc⟩ := h.head
  -- a zero after the point is one more zero at the end of the digits
  obtain ⟨m, hm⟩ : ∃ m, (if keepsPoint then ['0'] else []) = List.replicate m '0' := by
    cases keepsPoint
    · exact ⟨0, rfl⟩
    · exact ⟨1, rfl⟩
  refine ⟨⟨negative, d.digits ++ List.replicate n '0', if keepsPoint then ['0'] else [], 0⟩,
    ⟨?_, ?_, ?_, ?_, fun _ => rfl⟩, rfl, ?_, value_eq_value (n + m) ?_ ?_⟩
  · intro c hc
    rcases List.mem_append.mp hc with hc | hc
    · exact h.isDigit c hc
    · exact isDigit_of_mem_zeros hc
  · intro c hc
    rw [hm] at hc
    exact isDigit_of_mem_zeros hc
  · rw [hdigits]
    exact nofun
  · intro zs hzs
    rw [hdigits] at hzs
    exact absurd (List.cons.inj hzs).1 hc
  · cases keepsPoint <;> simp [Numeral.spell]
  · simp only [hm, List.append_assoc, List.replicate_append_replicate]
    exact decimalNatural_append_zeros _ _
  · simp only [hm, List.length_replicate]
    omega

/-- Digits with a point where it belongs are a numeral that is worth the decimal. -/
theorem spells_writePlain (keepsPoint : Bool) (h : d.Leading) :
    Spells negative false (writePlain keepsPoint d) d := by
  unfold writePlain
  simp only
  -- by the place of the point: before the digits, among them, or behind them
  by_cases hbefore : d.point ≤ 0
  · rw [if_pos hbefore]
    exact spells_before negative h (by omega)
  · rw [if_neg hbefore]
    by_cases hamong : d.point < d.digits.length
    · obtain ⟨n, hn⟩ : ∃ n : Nat, d.point.toNat = n + 1 := ⟨d.point.toNat - 1, by omega⟩
      rw [if_pos hamong, hn]
      exact spells_among negative h (by omega) (by omega)
    · rw [if_neg hamong]
      exact spells_after negative keepsPoint h (by omega)

/-- So is the first digit, a point before the others, and an exponent. -/
theorem spells_writeExponent (h : d.Leading) : Spells negative true (writeExponent d) d := by
  obtain ⟨c, ds, hdigits, hc⟩ := h.head
  refine ⟨⟨negative, d.digits.take 1, d.digits.drop 1, d.point - 1⟩,
    ⟨?_, ?_, ?_, ?_, nofun⟩, rfl, ?_, value_eq_value 0 ?_ ?_⟩
  · exact fun c hc => h.isDigit c (List.mem_of_mem_take hc)
  · exact fun c hc => h.isDigit c (List.mem_of_mem_drop hc)
  · rw [hdigits]
    exact nofun
  · intro zs hzs
    rw [hdigits] at hzs
    exact absurd (List.cons.inj hzs).1 hc
  · simp [Numeral.spell, writeExponent, Numeral.spellPower]
  · rw [List.take_append_drop, Nat.pow_zero, Nat.mul_one]
  · simp only [hdigits, List.drop_succ_cons, List.drop_zero, List.length_cons]
    omega

/-- Zero is written as a numeral of its own. -/
theorem zero_spells (negative keepsPoint : Bool) :
    ∃ numeral : Numeral, numeral.Spellable false ∧
      numeral.spell false = (if negative then ['-'] else [])
        ++ '0' :: (if keepsPoint then ['.', '0'] else []) ∧
      numeral.toFloat = ofMagnitude negative 0 := by
  refine ⟨⟨negative, ['0'], if keepsPoint then ['0'] else [], 0⟩,
    ⟨?_, ?_, nofun, ?_, fun _ => rfl⟩, ?_, ?_⟩
  · rintro c ⟨⟩
    · rfl
    · contradiction
  · cases keepsPoint
    · exact nofun
    · rintro c ⟨⟩
      · rfl
      · contradiction
  · rintro ds ⟨⟩
    rfl
  · cases keepsPoint <;> simp [Numeral.spell]
  · cases keepsPoint <;> rfl

/-- A positive magnitude is written with its shortest digits, with a power of ten unless the style
has it plain. -/
theorem Style.write_digits (style : Style) {x : Float} (hpos : 0 < magnitude x)
    (hlt : magnitude x < infinityWord) :
    ∃ numeral : Numeral, numeral.Spellable (!style.isPlain x.abs) ∧
      (style.write x).toList = numeral.spell (!style.isPlain x.abs) ∧ numeral.toFloat = x ∧
      numeral.value = (shortest style.tie (magnitude x)).value := by
  obtain ⟨hleading, hround⟩ := shortest_spec style.tie hpos
  have hspells : Spells (isNegative x) (!style.isPlain x.abs)
      (if style.isPlain x.abs then writePlain style.keepsPoint (shortest style.tie (magnitude x))
        else writeExponent (shortest style.tie (magnitude x)))
      (shortest style.tie (magnitude x)) := by
    cases style.isPlain x.abs with
    | false =>
      rw [if_neg nofun]
      exact spells_writeExponent _ hleading
    | true =>
      rw [if_pos rfl]
      exact spells_writePlain _ _ hleading
  obtain ⟨numeral, hspellable, hnegative, hspell, hvalue⟩ := hspells
  refine ⟨numeral, hspellable, ?_, ?_, hvalue⟩
  · unfold Style.write
    simp only
    rw [if_neg (by omega), if_neg (by simpa using hlt.ne), if_neg (by simpa using hpos.ne'),
      String.toList_ofList, hspell]
  · rw [Numeral.toFloat_eq hspellable hlt (hvalue ▸ hround), hnegative,
      ofMagnitude_magnitude]

/-- A finite float is written as the text of a numeral that is read as the float. Only negative
zero may lose its sign. -/
theorem Style.write_spells (style : Style) {x : Float} (hfinite : x.isFinite = true)
    (hzero : magnitude x = 0 → isNegative x = true → style.keepsZeroSign = true) :
    ∃ (numeral : Numeral) (powered : Bool), numeral.Spellable powered ∧
      (style.write x).toList = numeral.spell powered ∧ numeral.toFloat = x := by
  have hlt := (isFinite_iff x).mp hfinite
  rcases Nat.eq_zero_or_pos (magnitude x) with hmag | hpos
  · -- zero is not written with digits
    have hsign : (if style.keepsZeroSign then (if isNegative x then ['-'] else []) else [])
        = if isNegative x then ['-'] else [] := by
      cases hneg : isNegative x with
      | false => exact ite_self _
      | true => exact if_pos (hzero hmag hneg)
    obtain ⟨numeral, hspellable, hspell, hfloat⟩ := zero_spells (isNegative x) style.keepsPoint
    refine ⟨numeral, false, hspellable, ?_, ?_⟩
    · unfold Style.write
      simp only
      rw [if_neg (by omega), if_neg (by simpa using hlt.ne), if_pos (by simpa using hmag),
        String.toList_ofList, hsign, hspell]
    · rw [hfloat, ← hmag, ofMagnitude_magnitude]
  · obtain ⟨numeral, hspellable, hspell, hfloat, -⟩ := style.write_digits hpos hlt
    exact ⟨numeral, _, hspellable, hspell, hfloat⟩

end Decimal

end ToyCpu
