import ToyCpu.Proofs.Fewest
import ToyCpu.Proofs.Numerals
import ToyCpu.Proofs.Worth
import ToyCpu.Value

/-!
# Numbers as text

What is written for a number is taken for the number again. The text is that of a numeral, and
the reader's other rules — for the infinities, for other bases, for characters that no numeral
has — catch no numeral. Only zero loses its sign, and the value that is not a number is no number
to `coerce?` but one to `Value.parse`.

* `Numeral.chars_of_ofChars?`, `Numeral.number?_eq` — numerals are taken for their nearest float.
* `Numeral.significant_le` — the digits that count, and that there are no fewer.
* `IsPlain`, `HasSignedExponent` — the two ways of writing a number.
* `coerce?_numberText`, `Value.parse_numberText` — a number's text reads back.
* `numberText_faithful` — all of this about one number.
-/

namespace ToyCpu

open Binary64 Decimal

/-! ### Characters of a numeral -/

/-- No character of a numeral is a blank, so nothing is trimmed from one. -/
theorem not_isBlank_of_isNumeralChar {c : Char} (h : isNumeralChar c = true) :
    Text.isBlank c = false := by
  simp only [isNumeralChar, Bool.or_eq_true, beq_iff_eq] at h
  rcases h with ((((h | rfl) | rfl) | rfl) | rfl) | rfl
  · obtain ⟨hle, hge⟩ := Char.isDigit_iff_toNat.mp h
    exact Text.not_isBlank_of_printable (Nat.lt_of_lt_of_le (by decide) hle)
      (Nat.lt_of_le_of_lt hge (by decide))
  all_goals rfl

namespace Numeral

theorem isNumeralChar_of_isDigit {c : Char} (h : c.isDigit = true) : isNumeralChar c = true := by
  simp [isNumeralChar, h]

theorem isNumeralChar_of_isSign {sign : List Char} {negative : Bool} (h : IsSign sign negative) :
    ∀ c ∈ sign, isNumeralChar c = true := by
  intro c hc
  rcases h.mem c hc with rfl | rfl
  · rfl
  · rfl

/-- A power is spelled with a letter that numerals have, a sign and digits. -/
theorem isNumeralChar_of_isPower {power : List Char} {e : Int} (h : IsPower power e) :
    ∀ c ∈ power, isNumeralChar c = true := by
  cases h with
  | none => exact nofun
  | some hletter hsign hspell hne =>
    have hdigits := (digitsSpell_ten_iff.mp hspell).1
    refine List.forall_mem_cons.mpr ⟨?_, List.forall_mem_append.mpr
      ⟨isNumeralChar_of_isSign hsign, fun c hc => isNumeralChar_of_isDigit (hdigits c hc)⟩⟩
    rcases hletter with rfl | rfl
    · rfl
    · rfl

/-- A numeral is read from characters of numerals, and it keeps the digits among them. -/
theorem chars_of_ofChars? {cs : List Char} {numeral : Numeral} (h : ofChars? cs = some numeral) :
    (∀ c ∈ numeral.whole ++ numeral.fraction, c.isDigit = true) ∧
      ∀ c ∈ cs, isNumeralChar c = true := by
  obtain ⟨sign, power, point, rfl, hsign, hwhole, hfraction, -, -, hpower⟩ :=
    ofChars?_eq_some_iff.mp h
  have hpoint : ∀ c ∈ if point then '.' :: numeral.fraction else [], isNumeralChar c = true := by
    cases point with
    | false => exact nofun
    | true =>
      exact List.forall_mem_cons.mpr
        ⟨rfl, fun c hc => isNumeralChar_of_isDigit (hfraction c hc)⟩
  simp only [List.forall_mem_append]
  exact ⟨⟨hwhole, hfraction⟩, isNumeralChar_of_isSign hsign,
    fun c hc => isNumeralChar_of_isDigit (hwhole c hc), hpoint, isNumeralChar_of_isPower hpower⟩

/-! ### Numerals as numbers -/

/-- The letters that stand for other bases are in no numeral. -/
theorem takeBase_eq_none {cs : List Char} (h : ∀ c ∈ cs, isNumeralChar c = true) :
    takeBase cs = none := by
  unfold takeBase
  split
  · next c rest =>
    have hc : isNumeralChar c = true := h c (List.mem_cons_of_mem _ List.mem_cons_self)
    have hne : ∀ d, isNumeralChar d = false → (c == d) = false := by
      rintro d hd
      rw [beq_eq_false_iff_ne]
      rintro rfl
      exact absurd (hc.symm.trans hd) nofun
    simp only [hne 'x' (by decide), hne 'X' (by decide), hne 'o' (by decide), hne 'O' (by decide),
      hne 'b' (by decide), hne 'B' (by decide)]
    rfl
  · rfl

/-- A text that is a numeral is taken for the number that is nearest to the numeral. -/
theorem number?_eq {cs : List Char} {numeral : Numeral} (h : ofChars? cs = some numeral) :
    number? cs = some numeral.toFloat := by
  obtain ⟨-, hchars⟩ := chars_of_ofChars? h
  have hnonempty : ¬ cs.isEmpty = true := by
    rintro hnil
    rw [List.isEmpty_iff.mp hnil] at h
    cases h
  -- the words for the infinities have letters that no numeral has
  have hother : ∀ word : List Char, word.all isNumeralChar = false → (cs == word) = false := by
    rintro word hword
    rw [beq_eq_false_iff_ne]
    rintro rfl
    exact absurd ((List.all_eq_true.mpr hchars).symm.trans hword) nofun
  unfold number?
  rw [if_neg hnonempty, hother _ (by decide), hother _ (by decide), hother _ (by decide),
    takeBase_eq_none hchars, if_neg nofun, if_neg nofun]
  simp only
  rw [if_pos (List.all_eq_true.mpr hchars), h, Option.map_some]

/-- The same with the blanks trimmed, since a numeral has none. -/
theorem coerce?_eq {text : String} {numeral : Numeral} (h : ofChars? text.toList = some numeral) :
    coerce? text = some numeral.toFloat := by
  have hunblank : ∀ c ∈ text.toList, Text.isBlank c = false :=
    fun c hc => not_isBlank_of_isNumeralChar ((chars_of_ofChars? h).2 c hc)
  rw [coerce?, Text.trimChars_eq_self hunblank, number?_eq h]

/-! ### The digits of a numeral that count -/

/-- What is too large is rounded to infinity and not beyond. -/
theorem scaledWord_le (n digits : Nat) (e : Int) : scaledWord n digits e ≤ infinityWord := by
  unfold scaledWord
  split
  · exact Nat.zero_le _
  · split
    · exact le_rfl
    · cases e with
      | ofNat k => exact Nat.min_le_right _ _
      | negSucc k => exact Nat.min_le_right _ _

theorem magnitude_toFloat (numeral : Numeral) : magnitude numeral.toFloat
    = scaledWord (decimalNatural (numeral.whole ++ numeral.fraction))
      (numeral.whole ++ numeral.fraction).length (numeral.exponent - numeral.fraction.length) :=
  (fields_ofMagnitude (scaledWord_le _ _ _)).1

/-- A numeral that is read as a finite float is rounded to its word. -/
theorem roundsTo_of_toFloat {numeral : Numeral} {x : Float}
    (hdigits : ∀ c ∈ numeral.whole ++ numeral.fraction, c.isDigit = true)
    (h : numeral.toFloat = x) (hlt : magnitude x < infinityWord) :
    RoundsTo (magnitude x) numeral.value := by
  have hword := numeral.magnitude_toFloat
  rw [h] at hword
  exact roundsTo_of_scaledWord hlt (decimalNatural_lt hdigits) hword.symm

/-- The significant digits of a numeral: without the zeros at either end. -/
def significant (numeral : Numeral) : List Char := withoutZeros (numeral.whole ++ numeral.fraction)

/-- A numeral that is worth as much as a float's shortest decimal has the fewest significant
digits of all numerals that are read as the float. -/
theorem significant_le {shown other : Numeral} {x : Float} (hpos : 0 < magnitude x)
    (hlt : magnitude x < infinityWord) {tie : TieRule}
    (hdigits : ∀ c ∈ shown.whole ++ shown.fraction, c.isDigit = true)
    (hshown : shown.value = (shortest tie (magnitude x)).value)
    (hdigits' : ∀ c ∈ other.whole ++ other.fraction, c.isDigit = true)
    (hother : other.toFloat = x) : shown.significant.length ≤ other.significant.length := by
  have hdecimal : IsDecimal other.significant.length other.value :=
    (isDecimal_iff hdigits' _ _).mpr le_rfl
  -- another numeral is rounded to the same word, so its value has no fewer digits
  have hfewest := shortest_fewest tie hpos (roundsTo_of_toFloat hdigits' hother hlt) hdecimal
  rw [← hshown] at hfewest
  exact (isDecimal_iff hdigits _ _).mp hfewest

/-! ### Letters in a numeral's text -/

/-- No digit is a letter, since the letters come after the digits. -/
theorem isAlpha_of_isDigit {c : Char} (h : c.isDigit = true) : c.isAlpha = false := by
  have hlast : c.toNat ≤ 57 := (Char.isDigit_iff_toNat.mp h).2
  have hupper : c.isUpper = false :=
    decide_eq_false fun hc => absurd (hlast.trans' hc.1) (by decide)
  have hlower : c.isLower = false :=
    Bool.and_eq_false_imp.mpr fun hc => absurd (hlast.trans' (of_decide_eq_true hc)) (by decide)
  exact Bool.or_eq_false_iff.mpr ⟨hupper, hlower⟩

variable {numeral : Numeral} {powered : Bool}

/-- Without a power of ten there is no letter in a numeral's text. -/
theorem not_isAlpha_of_mem_spell (h : numeral.Spellable powered) :
    ∀ c ∈ numeral.spell false, c.isAlpha = false := by
  intro c hc
  simp only [spell, Bool.false_eq_true, if_false, List.append_nil, List.mem_append] at hc
  rcases hc with (hc | hc) | hc
  · cases hn : numeral.negative with
    | false =>
      rw [hn] at hc
      cases hc
    | true =>
      rw [hn, if_pos rfl] at hc
      rw [List.mem_singleton.mp hc]
      rfl
  · exact isAlpha_of_isDigit (h.whole c hc)
  · cases hf : numeral.fraction.isEmpty with
    | true =>
      rw [hf] at hc
      cases hc
    | false =>
      rw [hf, if_neg Bool.false_ne_true] at hc
      rcases List.mem_cons.mp hc with rfl | hc
      · rfl
      · exact isAlpha_of_isDigit (h.fraction c hc)

/-- A power of ten comes after all else in a numeral. -/
theorem spell_true (numeral : Numeral) :
    numeral.spell true = numeral.spell false ++ spellPower numeral.exponent := by
  simp [spell]

end Numeral

/-! ### The text of a number -/

/-- There is no exponent in a text. -/
def IsPlain (cs : List Char) : Prop := 'e' ∉ cs ∧ 'E' ∉ cs

/-- A text ends in an exponent that has a sign, and there is no other one. -/
def HasSignedExponent (cs : List Char) : Prop :=
  ∃ mantissa sign digits, cs = mantissa ++ 'e' :: sign :: digits ∧ IsPlain mantissa ∧
    (sign = '+' ∨ sign = '-') ∧ digits ≠ [] ∧ ∀ c ∈ digits, c.isDigit = true

/-- A numeral without a power has no exponent. -/
theorem Numeral.isPlain_spell {numeral : Numeral} {powered : Bool} (h : numeral.Spellable powered) :
    IsPlain (numeral.spell false) := by
  constructor
  · intro hmem
    exact absurd (not_isAlpha_of_mem_spell h _ hmem) (by decide)
  · intro hmem
    exact absurd (not_isAlpha_of_mem_spell h _ hmem) (by decide)

/-- One with a power ends in it, and it always has a sign. -/
theorem Numeral.hasSignedExponent_spell {numeral : Numeral} (h : numeral.Spellable true) :
    HasSignedExponent (numeral.spell true) := by
  refine ⟨numeral.spell false, _, _, numeral.spell_true, isPlain_spell h, ?_,
    Nat.toDigits_ne_nil, fun c hc => isDigit_of_mem_digits hc⟩
  split
  · exact .inr rfl
  · exact .inl rfl

/-- The texts of the infinities are taken for them. -/
theorem coerce?_infinity (negative : Bool) :
    coerce? (String.ofList (if negative then ['-'] else []) ++ "Infinity")
      = some (ofMagnitude negative infinityWord) := by
  have htrim : Text.trimChars
      (String.ofList (if negative then ['-'] else []) ++ "Infinity").toList
        = (if negative then ['-'] else []) ++ "Infinity".toList := by
    cases negative <;> decide
  rw [coerce?, htrim]
  unfold number?
  cases negative
  · rw [if_neg (by decide), if_pos (by decide)]
  · rw [if_neg (by decide), if_neg (by decide), if_pos (by decide)]

variable {x : Float}

theorem numberText_nan (h : infinityWord < magnitude x) : numberText x = "NaN" := by
  unfold numberText Style.write
  exact if_pos h

/-- The infinities have a text of their own, with a minus or not. -/
theorem numberText_infinity (h : magnitude x = infinityWord) :
    numberText x = String.ofList (if isNegative x then ['-'] else []) ++ "Infinity" := by
  unfold numberText Style.write
  simp only
  rw [if_neg (by omega), if_pos (beq_iff_eq.mpr h)]
  rfl

/-- Zero is written without its sign. -/
theorem numberText_zero (h : magnitude x = 0) : numberText x = "0" := by
  unfold numberText Style.write
  simp only
  rw [h]
  rfl

/-- A finite number other than zero is written as a numeral that is read as the number and worth
as much as its shortest decimal. -/
theorem numberText_numeral (hpos : 0 < magnitude x) (hlt : magnitude x < infinityWord) :
    ∃ shown, Numeral.ofChars? (numberText x).toList = some shown ∧ shown.toFloat = x ∧
      shown.value = (shortest numberStyle.tie (magnitude x)).value := by
  obtain ⟨shown, hspellable, hspell, hfloat, hvalue⟩ := numberStyle.write_digits hpos hlt
  refine ⟨shown, ?_, hfloat, hvalue⟩
  rw [numberText, hspell, Numeral.ofChars?_spell hspellable]

/-- The text of a number is taken for the number again, but for the sign of zero. -/
theorem coerce?_numberText (h : magnitude x ≤ infinityWord) :
    coerce? (numberText x) = some (if x = -0 then 0 else x) := by
  -- three kinds of numbers, each written its own way: zero, the finite ones and the infinities
  rcases Nat.eq_zero_or_pos (magnitude x) with hzero | hpos
  · have hread : coerce? "0" = some (if x = -0 then 0 else x) := by
      rw [eq_zero_of_magnitude hzero]
      cases isNegative x
      · rfl
      · rfl
    rw [numberText_zero hzero, hread]
  · have hsign : x ≠ -0 := by
      rintro rfl
      exact absurd hpos (by decide)
    rw [if_neg hsign]
    rcases Nat.lt_or_eq_of_le h with hlt | hinf
    · obtain ⟨shown, hread, hfloat, -⟩ := numberText_numeral hpos hlt
      rw [Numeral.coerce?_eq hread, hfloat]
    · rw [numberText_infinity hinf, coerce?_infinity, ← hinf, ofMagnitude_magnitude]

/-- The text of a number is parsed as the number, but for the sign of zero. -/
theorem Value.parse_numberText (x : Float) :
    Value.parse (numberText x) = .number (if x = -0 then 0 else x) := by
  rcases Nat.lt_or_ge infinityWord (magnitude x) with hnan | hle
  · -- whatever word it came from, there is one value that is not a number
    rw [numberText_nan hnan, eq_nan hnan]
    rfl
  · rw [Value.parse, coerce?_numberText hle]

/-- A number equals whatever is written like it. -/
theorem beq_of_numberText_eq {y : Float} (hx : x.isNaN = false)
    (h : numberText x = numberText y) : (x == y) = true := by
  -- both are what the text is read as; the two zeros differ, but they equal each other
  have hsame : (if x = -0 then 0 else x) = if y = -0 then 0 else y := by
    have hread := Value.parse_numberText x
    rw [h, Value.parse_numberText y] at hread
    exact (Value.number.inj hread).symm
  split at hsame
  · next hxzero =>
    rw [hxzero]
    split at hsame
    · next hyzero =>
      rw [hyzero]
      rfl
    · rw [← hsame]
      rfl
  · split at hsame
    · next hyzero =>
      rw [hsame, hyzero]
      rfl
    · rw [← hsame]
      exact beq_self hx

/-- A finite number other than zero is written plainly from a millionth to below `10 ^ 21`, and
otherwise with a signed exponent. -/
theorem numberText_notation (hpos : 0 < magnitude x) (hlt : magnitude x < infinityWord) :
    ((1e-6 ≤ x.abs ∧ x.abs < 1e21) → IsPlain (numberText x).toList) ∧
      (¬ (1e-6 ≤ x.abs ∧ x.abs < 1e21) → HasSignedExponent (numberText x).toList) := by
  obtain ⟨numeral, hspellable, hspell, -, -⟩ := numberStyle.write_digits hpos hlt
  -- the style compares floats, so these bounds are the floats that are nearest to them
  have hplain : numberStyle.isPlain x.abs = decide (1e-6 ≤ x.abs ∧ x.abs < 1e21) :=
    (Bool.decide_and _ _).symm
  rw [numberText, hspell]
  rw [hplain] at hspellable ⊢
  constructor
  · intro hrange
    rw [decide_eq_true hrange] at hspellable ⊢
    exact Numeral.isPlain_spell hspellable
  · intro hrange
    rw [decide_eq_false hrange] at hspellable ⊢
    exact Numeral.hasSignedExponent_spell hspellable

example : numberText 1e20 = "100000000000000000000" ∧ numberText 1e21 = "1e+21" := by decide +kernel

/-- It is written with the fewest significant digits of all numerals that are taken for it. -/
theorem numberText_fewest (hpos : 0 < magnitude x) (hlt : magnitude x < infinityWord) :
    ∃ shown, Numeral.ofChars? (numberText x).toList = some shown ∧
      ∀ text other, Numeral.ofChars? (Text.trimChars text.toList) = some other →
        coerce? text = some x → shown.significant.length ≤ other.significant.length := by
  obtain ⟨shown, hshown, -, hvalue⟩ := numberText_numeral hpos hlt
  refine ⟨shown, hshown, fun text other hother hread => ?_⟩
  rw [coerce?, Numeral.number?_eq hother] at hread
  exact Numeral.significant_le hpos hlt (Numeral.chars_of_ofChars? hshown).1 hvalue
    (Numeral.chars_of_ofChars? hother).1 (Option.some.inj hread)

/-- What is written for a number is read as the number bit for bit, but for the sign of zero, and
what is written for the value that is not a number is parsed as it. So numbers that are written
alike are equal. A finite number other than zero is written without an exponent exactly from a
millionth to below `10 ^ 21`, and otherwise with a signed one, and no numeral that is taken for
the number has fewer significant digits. -/
theorem numberText_faithful (x : Float) :
    (x.isNaN = false → coerce? (numberText x) = some (if x = -0 then 0 else x)) ∧
    (x.isNaN = true → Value.parse (numberText x) = .number nan) ∧
    (∀ y : Float, x.isNaN = false → numberText x = numberText y → (x == y) = true) ∧
    (x.isFinite = true → (x == 0) = false →
      ((1e-6 ≤ x.abs ∧ x.abs < 1e21) → IsPlain (numberText x).toList) ∧
      (¬ (1e-6 ≤ x.abs ∧ x.abs < 1e21) → HasSignedExponent (numberText x).toList) ∧
      ∃ shown, Numeral.ofChars? (numberText x).toList = some shown ∧
        ∀ text other, Numeral.ofChars? (Text.trimChars text.toList) = some other →
          coerce? text = some x → shown.significant.length ≤ other.significant.length) := by
  refine ⟨?_, ?_, ?_, ?_⟩
  · intro hnumber
    refine coerce?_numberText (Nat.not_lt.mp fun hnan => ?_)
    rw [(isNaN_iff x).mpr hnan] at hnumber
    cases hnumber
  · intro hnan
    rw [Value.parse_numberText, eq_nan ((isNaN_iff x).mp hnan)]
    rfl
  · exact fun y => beq_of_numberText_eq
  · intro hfinite hnonzero
    have hlt := (isFinite_iff x).mp hfinite
    have hpos : 0 < magnitude x := by
      refine Nat.pos_of_ne_zero fun hzero => ?_
      rw [(beq_zero_iff x).mpr hzero] at hnonzero
      cases hnonzero
    obtain ⟨hplain, hpowered⟩ := numberText_notation hpos hlt
    exact ⟨hplain, hpowered, numberText_fewest hpos hlt⟩

end ToyCpu
