import ToyCpu.Proofs.Nearest
import ToyCpu.Proofs.NumberText

/-!
# The texts that are numbers

Which texts are taken for a number, and for which one, as a grammar that knows nothing of the
reader: its words are put together from signs, digits, points and powers of ten, and a number's
float is said to be nearest to what the text is worth, not to be computed in some way.

* `IsTakenFor` — the grammar.
* `baseNumber?_eq_some_iff`, `mantissa_of_ofChars?`, `ofChars?_of_mantissa` — the reader's parts.
* `number?_eq_some_iff` — the reader takes texts for numbers as the grammar does.
* `cutBytes?`, `takeBase_eq_some_iff_cutBytes?` — the base of a number, looked up in two bytes.
* `coerce?_grammar` — so does the whole interpreter, and what is left out of the grammar.
-/

namespace ToyCpu

open Binary64 Decimal

/-! ### The grammar -/

/-- The letters that name a base after a zero. -/
def baseLetters : List (Char × Nat) :=
  [('x', 16), ('X', 16), ('o', 8), ('O', 8), ('b', 2), ('B', 2)]

/-- What a trimmed text is taken for. -/
inductive IsTakenFor : List Char → Float → Prop
  | blank : IsTakenFor [] 0
  | infinity {sign : List Char} {negative : Bool} (hsign : IsSign sign negative) :
      IsTakenFor (sign ++ "Infinity".toList) (if negative then -1 / 0 else 1 / 0)
  | base {letter : Char} {base n : Nat} {plus ds : List Char} {x : Float}
      (hletter : (letter, base) ∈ baseLetters) (hplus : IsSign plus false)
      (h : DigitsSpell base ds n) (hne : ds ≠ []) (hlt : n < 2 ^ 64)
      (hx : isNegative x = false) (hnearest : IsNearest n x) :
      IsTakenFor ('0' :: letter :: (plus ++ ds)) x
  | decimal {sign mantissa power : List Char} {negative : Bool} {n places : Nat} {e : Int}
      {x : Float} (hsign : IsSign sign negative) (hmantissa : IsMantissa mantissa n places)
      (hpower : IsPower power e) (hx : isNegative x = negative)
      (hnearest : IsNearest (signed negative (n * 10 ^ (e - places))) x) :
      IsTakenFor (sign ++ mantissa ++ power) x

/-! ### Reading a decimal -/

namespace Numeral

/-- A decimal of the grammar is read as a numeral of its sign that is worth as much. -/
theorem ofChars?_of_mantissa {sign mantissa power : List Char} {negative : Bool} {n places : Nat}
    {e : Int} (hsign : IsSign sign negative) (hmantissa : IsMantissa mantissa n places)
    (hpower : IsPower power e) : ∃ numeral, ofChars? (sign ++ mantissa ++ power) = some numeral ∧
      numeral.negative = negative ∧ numeral.value = n * 10 ^ (e - places) := by
  obtain ⟨ds, fs, point, rfl, hds, hfs, hne, hpoint, rfl, rfl⟩ := isMantissa_iff.mp hmantissa
  have hread := ofChars?_append point hsign hds hfs hne hpoint hpower
  simp only [← List.append_assoc] at hread ⊢
  exact ⟨_, hread, rfl, rfl⟩

/-- What is read as a numeral is a decimal of the grammar. -/
theorem mantissa_of_ofChars? {cs : List Char} {numeral : Numeral}
    (h : ofChars? cs = some numeral) : ∃ sign mantissa power n places e,
      IsSign sign numeral.negative ∧ IsMantissa mantissa n places ∧ IsPower power e ∧
      cs = sign ++ mantissa ++ power ∧ numeral.value = n * 10 ^ (e - places) := by
  obtain ⟨sign, power, point, rfl, hsign, hds, hfs, hne, hpoint, hpower⟩ :=
    ofChars?_eq_some_iff.mp h
  have hmantissa := isMantissa_iff.mpr
    ⟨numeral.whole, numeral.fraction, point, rfl, hds, hfs, hne, hpoint, rfl, rfl⟩
  refine ⟨sign, _, power, _, _, _, hsign, hmantissa, hpower, ?_, rfl⟩
  simp only [List.append_assoc]

theorem value_nonneg (numeral : Numeral) : 0 ≤ numeral.value := by
  unfold value
  positivity

/-- A numeral is read as the float of its sign that is nearest to what it is worth. -/
theorem isNearest_toFloat {numeral : Numeral}
    (h : ∀ c ∈ numeral.whole ++ numeral.fraction, c.isDigit = true) :
    isNegative numeral.toFloat = numeral.negative ∧
      IsNearest (signed numeral.negative numeral.value) numeral.toFloat := by
  have hsign : isNegative numeral.toFloat = numeral.negative :=
    (fields_ofMagnitude (scaledWord_le _ _ _)).2
  refine ⟨hsign, (isNearest_iff_isRounded numeral.value_nonneg hsign).mpr ?_⟩
  rw [magnitude_toFloat]
  exact isRounded_scaledWord (decimalNatural_lt h)

end Numeral

/-! ### Reading another base -/

/-- A natural number is read as the float nearest to it. -/
theorem isNearest_natural (n : Nat) : isNegative (ofMagnitude false (nearestWord n 1)) = false ∧
    IsNearest n (ofMagnitude false (nearestWord n 1)) := by
  have hround := isRounded_nearestWord n one_pos
  obtain ⟨hword, hsign⟩ := @fields_ofMagnitude false (nearestWord n 1) (Nat.min_le_right _ _)
  refine ⟨hsign, ?_⟩
  rw [← signed_false (n : ℚ), isNearest_iff_isRounded n.cast_nonneg hsign, hword]
  rwa [Nat.cast_one, div_one] at hround

/-- The float of the natural number that digits of a base spell, if it has at most 64 bits. -/
def spelledNumber? (base : Nat) (ds : List Char) : Option Float :=
  (radixNatural? base ds).bind fun n =>
    if n < 2 ^ 64 then some (ofMagnitude false (nearestWord n 1)) else none

theorem spelledNumber?_eq_some_iff {base : Nat} {ds : List Char} {x : Float} (hbase : base ≤ 16) :
    spelledNumber? base ds = some x ↔ ∃ n, DigitsSpell base ds n ∧ ds ≠ [] ∧ n < 2 ^ 64 ∧
      isNegative x = false ∧ IsNearest n x := by
  simp only [spelledNumber?, Option.bind_eq_some_iff, radixNatural?_eq_some_iff hbase,
    Option.ite_none_right_eq_some, Option.some.injEq]
  constructor
  · rintro ⟨n, ⟨hne, hspell⟩, hlt, rfl⟩
    exact ⟨n, hspell, hne, hlt, isNearest_natural n⟩
  · rintro ⟨n, hspell, hne, hlt, hx, hnearest⟩
    obtain ⟨hsign, hnear⟩ := isNearest_natural n
    rw [← signed_false (n : ℚ)] at hnearest hnear
    exact ⟨n, ⟨hne, hspell⟩, hlt, hnear.unique n.cast_nonneg hsign hx hnearest⟩

theorem baseNumber?_plus (base : Nat) (ds : List Char) :
    baseNumber? base ('+' :: ds) = spelledNumber? base ds := by
  unfold baseNumber? spelledNumber?
  simp only
  cases radixNatural? base ds with
  | none => rfl
  | some n => rfl

theorem baseNumber?_of_no_plus (base : Nat) {ds : List Char} (h : ∀ rest, ds ≠ '+' :: rest) :
    baseNumber? base ds = spelledNumber? base ds := by
  unfold baseNumber? spelledNumber?
  split
  · next rest => exact absurd rfl (h rest)
  · simp only
    cases radixNatural? base ds with
    | none => rfl
    | some n => rfl

/-- Characters are read in a base as the natural number that they spell after an optional plus,
and it as the float nearest to it. -/
theorem baseNumber?_eq_some_iff {base : Nat} {cs : List Char} {x : Float} (hbase : base ≤ 16) :
    baseNumber? base cs = some x ↔ ∃ plus ds n, cs = plus ++ ds ∧ IsSign plus false ∧
      DigitsSpell base ds n ∧ ds ≠ [] ∧ n < 2 ^ 64 ∧ isNegative x = false ∧ IsNearest n x := by
  constructor
  · intro h
    by_cases hplus : ∃ rest, cs = '+' :: rest
    · obtain ⟨ds, rfl⟩ := hplus
      rw [baseNumber?_plus, spelledNumber?_eq_some_iff hbase] at h
      obtain ⟨n, h⟩ := h
      exact ⟨['+'], ds, n, rfl, .plus, h⟩
    · rw [baseNumber?_of_no_plus base (not_exists.mp hplus), spelledNumber?_eq_some_iff hbase] at h
      obtain ⟨n, h⟩ := h
      exact ⟨[], cs, n, rfl, .none, h⟩
  · rintro ⟨plus, ds, n, rfl, hplus, h⟩
    have hread := (spelledNumber?_eq_some_iff hbase).mpr ⟨n, h⟩
    cases hplus with
    | plus => rwa [← baseNumber?_plus] at hread
    | none =>
      refine (baseNumber?_of_no_plus base fun rest hrest => ?_).trans hread
      -- a plus is no digit
      have hmem : '+' ∈ ds := by
        rw [show ds = '+' :: rest from hrest]
        exact List.mem_cons_self
      obtain ⟨d, hd⟩ := h.1.mem '+' hmem
      obtain ⟨hvalue, -⟩ := (isDigitOf_iff hbase).mp hd
      exact absurd (hvalue.symm.trans (show digitValue? '+' = none from rfl)) nofun

/-- A base is named by a zero and one of its letters, and what follows is the rest. -/
theorem takeBase_eq_some_iff {base : Nat} {cs rest : List Char} :
    takeBase cs = some (base, rest) ↔
      ∃ letter, (letter, base) ∈ baseLetters ∧ cs = '0' :: letter :: rest := by
  constructor
  · intro h
    unfold takeBase at h
    split at h
    · next letter rest =>
      simp only [Bool.or_eq_true, beq_iff_eq] at h
      split at h
      · next hletter =>
        cases h
        rcases hletter with rfl | rfl <;> exact ⟨_, by decide, rfl⟩
      · split at h
        · next hletter =>
          cases h
          rcases hletter with rfl | rfl <;> exact ⟨_, by decide, rfl⟩
        · split at h
          · next hletter =>
            cases h
            rcases hletter with rfl | rfl <;> exact ⟨_, by decide, rfl⟩
          · cases h
    · cases h
  · rintro ⟨letter, hletter, rfl⟩
    simp only [baseLetters, List.mem_cons, Prod.mk.injEq, List.not_mem_nil, or_false] at hletter
    rcases hletter with ⟨rfl, rfl⟩ | ⟨rfl, rfl⟩ | ⟨rfl, rfl⟩ | ⟨rfl, rfl⟩ | ⟨rfl, rfl⟩ | ⟨rfl, rfl⟩
    all_goals rfl

theorem baseLetters_spec : ∀ p ∈ baseLetters, p.1.utf8Size = 1 ∧ p.1.isAlphanum = true ∧
    isNumeralChar p.1 = false ∧ p.2 ≤ 16 := by
  decide

theorem base_le {letter : Char} {base : Nat} (h : (letter, base) ∈ baseLetters) : base ≤ 16 :=
  (baseLetters_spec _ h).2.2.2

/-! ### Reading a number -/

theorem isTakenFor_toFloat {cs : List Char} {numeral : Numeral}
    (h : Numeral.ofChars? cs = some numeral) : IsTakenFor cs numeral.toFloat := by
  obtain ⟨hx, hnearest⟩ := Numeral.isNearest_toFloat (Numeral.chars_of_ofChars? h).1
  obtain ⟨sign, mantissa, power, n, places, e, hsign, hmantissa, hpower, rfl, hvalue⟩ :=
    Numeral.mantissa_of_ofChars? h
  rw [hvalue] at hnearest
  exact .decimal hsign hmantissa hpower hx hnearest

/-- What a text is taken for is what the grammar says, by the tests that the reader makes. -/
theorem isTakenFor_of_number? {cs : List Char} {x : Float} (h : number? cs = some x) :
    IsTakenFor cs x := by
  unfold number? at h
  split at h
  · next hblank =>
    rw [List.isEmpty_iff.mp hblank, ← Option.some.inj h]
    exact .blank
  · split at h
    · next hword =>
      simp only [Bool.or_eq_true, beq_iff_eq] at hword
      rw [← Option.some.inj h]
      rcases hword with rfl | rfl
      · exact .infinity .none
      · exact .infinity .plus
    · split at h
      · next hword =>
        rw [beq_iff_eq.mp hword, ← Option.some.inj h]
        exact .infinity .minus
      · split at h
        · -- once there is a base, nothing but its digits is tried
          next base rest hbase =>
          obtain ⟨letter, hletter, rfl⟩ := takeBase_eq_some_iff.mp hbase
          obtain ⟨plus, ds, n, rfl, hplus, hspell, hne, hlt, hx, hnearest⟩ :=
            (baseNumber?_eq_some_iff (base_le hletter)).mp h
          exact .base hletter hplus hspell hne hlt hx hnearest
        · split at h
          · obtain ⟨numeral, hread, rfl⟩ := Option.map_eq_some_iff.mp h
            exact isTakenFor_toFloat hread
          · cases h

/-- The reader takes a trimmed text for a number as the grammar does. -/
theorem number?_eq_some_iff {cs : List Char} {x : Float} :
    number? cs = some x ↔ IsTakenFor cs x := by
  constructor
  · exact isTakenFor_of_number?
  · intro h
    cases h with
    | blank => rfl
    | infinity hsign =>
      cases hsign with
      | none => exact congrArg some (by rfl)
      | plus => exact congrArg some (by rfl)
      | minus => exact congrArg some (by rfl)
    | @base letter base n plus ds x hletter hplus h hne hlt hx hnearest =>
      have hbase : takeBase ('0' :: letter :: (plus ++ ds)) = some (base, plus ++ ds) :=
        takeBase_eq_some_iff.mpr ⟨letter, hletter, rfl⟩
      have hread := (baseNumber?_eq_some_iff (base_le hletter)).mpr
        ⟨plus, ds, n, rfl, hplus, h, hne, hlt, hx, hnearest⟩
      unfold number?
      rw [hbase]
      exact hread
    | decimal hsign hmantissa hpower hx hnearest =>
      -- the reader's float is nearest too, and there is one such float
      obtain ⟨numeral, hread, rfl, hvalue⟩ :=
        Numeral.ofChars?_of_mantissa hsign hmantissa hpower
      obtain ⟨hsame, hnear⟩ := Numeral.isNearest_toFloat (Numeral.chars_of_ofChars? hread).1
      rw [← hvalue] at hnearest
      rw [Numeral.number?_eq hread, hnear.unique numeral.value_nonneg hsame hx hnearest]

/-! ### The first two bytes -/

/-- The characters cut after a number of bytes, unless that is past the end or inside of one. -/
def cutBytes? : Nat → List Char → Option (List Char × List Char)
  | 0, cs => some ([], cs)
  | _ + 1, [] => none
  | n + 1, c :: cs =>
    if c.utf8Size ≤ n + 1 then
      (cutBytes? (n + 1 - c.utf8Size) cs).map fun (front, rest) => (c :: front, rest)
    else none

/-- Cutting loses no characters. -/
theorem append_of_cutBytes? {n : Nat} {cs front rest : List Char}
    (h : cutBytes? n cs = some (front, rest)) : cs = front ++ rest := by
  induction cs generalizing n front with
  | nil =>
    cases n with
    | zero =>
      cases h
      rfl
    | succ n => cases h
  | cons c cs ih =>
    cases n with
    | zero =>
      cases h
      rfl
    | succ n =>
      rw [cutBytes?, Option.ite_none_right_eq_some, Option.map_eq_some_iff] at h
      obtain ⟨-, ⟨front', rest'⟩, hcut, hparts⟩ := h
      cases hparts
      rw [ih hcut, List.cons_append]

/-- Characters of one byte each can be cut off. -/
theorem cutBytes?_append {front : List Char} (h : ∀ c ∈ front, c.utf8Size = 1) (rest : List Char) :
    cutBytes? front.length (front ++ rest) = some (front, rest) := by
  induction front with
  | nil => rw [List.length_nil, cutBytes?, List.nil_append]
  | cons c front ih =>
    obtain ⟨hc, hfront⟩ := List.forall_mem_cons.mp h
    rw [List.length_cons, List.cons_append, cutBytes?, hc, if_pos (Nat.le_add_left _ _),
      Nat.add_sub_cancel, ih hfront]
    rfl

/-- The base is named by the first two bytes. Where they end inside of a character there is none,
and where there is one the text can be cut after them. -/
theorem takeBase_eq_some_iff_cutBytes? {base : Nat} {cs rest : List Char} :
    takeBase cs = some (base, rest) ↔
      ∃ letter, (letter, base) ∈ baseLetters ∧ cutBytes? 2 cs = some (['0', letter], rest) := by
  refine takeBase_eq_some_iff.trans (exists_congr fun letter => and_congr_right fun hletter => ?_)
  constructor
  · rintro rfl
    have hbyte : letter.utf8Size = 1 := (baseLetters_spec _ hletter).1
    have hbytes : ∀ c ∈ ['0', letter], c.utf8Size = 1 :=
      List.forall_mem_cons.mpr ⟨rfl, List.forall_mem_singleton.mpr hbyte⟩
    exact cutBytes?_append hbytes rest
  · exact append_of_cutBytes?

/-! ### What is left out -/

/-- A nearest float is finite or infinite. -/
theorem IsNearest.isNaN_eq_false {q : ℚ} {x : Float} (h : IsNearest q x) : x.isNaN = false := by
  rw [Bool.eq_false_iff, Ne, isNaN_iff]
  cases h with
  | finite hlt hfinite hnearest heven =>
    have hword := (isFinite_iff x).mp hfinite
    omega
  | infinite hle hinfinite =>
    have hword := (isInf_iff x).mp hinfinite
    omega

namespace IsTakenFor

variable {cs : List Char} {x : Float}

/-- No text is taken for the value that is not a number. -/
theorem isNaN_eq_false (h : IsTakenFor cs x) : x.isNaN = false := by
  cases h with
  | blank => rfl
  | @infinity sign negative hsign =>
    cases negative
    · rfl
    · rfl
  | base hletter hplus h hne hlt hx hnearest => exact hnearest.isNaN_eq_false
  | decimal hsign hmantissa hpower hx hnearest => exact hnearest.isNaN_eq_false

/-- Where there is neither a digit nor nothing, there is the word for infinity. -/
theorem exists_digit (h : IsTakenFor cs x) : cs = [] ∨
    (∃ sign negative, IsSign sign negative ∧ cs = sign ++ "Infinity".toList) ∨
    ∃ c ∈ cs, c.isDigit = true := by
  cases h with
  | blank => exact .inl rfl
  | infinity hsign => exact .inr (.inl ⟨_, _, hsign, rfl⟩)
  | base hletter hplus h hne hlt hx hnearest =>
    exact .inr (.inr ⟨'0', List.mem_cons_self, rfl⟩)
  | decimal hsign hmantissa hpower hx hnearest =>
    obtain ⟨ds, fs, point, rfl, hds, hfs, hne, hpoint, -, -⟩ := isMantissa_iff.mp hmantissa
    refine .inr (.inr ?_)
    rcases hne with hne | hne
    · obtain ⟨d, hd⟩ := List.exists_mem_of_ne_nil ds hne
      exact ⟨d, by simp [hd], hds d hd⟩
    · cases point with
      | false => exact absurd (hpoint rfl) hne
      | true =>
        obtain ⟨d, hd⟩ := List.exists_mem_of_ne_nil fs hne
        exact ⟨d, by simp [hd], hfs d hd⟩

/-- The decimals are written with the characters of numerals. -/
theorem isNumeralChar_of_decimal {sign mantissa power : List Char} {negative : Bool}
    {n places : Nat} {e : Int} (hsign : IsSign sign negative)
    (hmantissa : IsMantissa mantissa n places) (hpower : IsPower power e) :
    ∀ c ∈ sign ++ mantissa ++ power, isNumeralChar c = true := by
  obtain ⟨numeral, hread, -⟩ := Numeral.ofChars?_of_mantissa hsign hmantissa hpower
  exact (Numeral.chars_of_ofChars? hread).2

/-- All characters are ASCII letters or digits, signs or points. -/
theorem chars (h : IsTakenFor cs x) :
    ∀ c ∈ cs, c.isAlphanum = true ∨ c = '+' ∨ c = '-' ∨ c = '.' := by
  have hofSign {sign : List Char} {negative : Bool} (hsign : IsSign sign negative) :
      ∀ c ∈ sign, c.isAlphanum = true ∨ c = '+' ∨ c = '-' ∨ c = '.' := by
    intro c hc
    rcases hsign.mem c hc with rfl | rfl
    · exact .inr (.inl rfl)
    · exact .inr (.inr (.inl rfl))
  cases h with
  | blank => exact nofun
  | infinity hsign =>
    have hword : "Infinity".toList.all Char.isAlphanum = true := by decide
    exact List.forall_mem_append.mpr
      ⟨hofSign hsign, fun c hc => .inl (List.all_eq_true.mp hword c hc)⟩
  | @base letter base n plus ds x hletter hplus h hne hlt hx hnearest =>
    obtain ⟨-, halphanum, -, hbase⟩ := baseLetters_spec _ hletter
    refine List.forall_mem_cons.mpr ⟨.inl rfl, List.forall_mem_cons.mpr ⟨.inl halphanum,
      List.forall_mem_append.mpr ⟨hofSign hplus, fun c hc => .inl ?_⟩⟩⟩
    obtain ⟨d, hd⟩ := h.mem c hc
    exact isAlphanum_of_isDigitOf hbase hd
  | decimal hsign hmantissa hpower hx hnearest =>
    intro c hc
    have hchar := isNumeralChar_of_decimal hsign hmantissa hpower c hc
    simp only [isNumeralChar, Bool.or_eq_true, beq_iff_eq] at hchar
    rcases hchar with ((((hdigit | rfl) | rfl) | rfl) | rfl) | rfl
    · exact .inl (by simp [Char.isAlphanum, hdigit])
    · exact .inr (.inr (.inr rfl))
    · exact .inl rfl
    · exact .inl rfl
    · exact .inr (.inl rfl)
    · exact .inr (.inr (.inl rfl))

/-- The digits of another base have no sign before the zero. -/
theorem not_signed_base {sign letter : Char} {base : Nat} {rest : List Char}
    (hsign : sign = '+' ∨ sign = '-') (hletter : (letter, base) ∈ baseLetters) :
    ¬ IsTakenFor (sign :: '0' :: letter :: rest) x := by
  intro h
  -- every production fails at one of the first three characters
  generalize hcs : sign :: '0' :: letter :: rest = cs at h
  cases h with
  | blank => cases hcs
  | infinity hsign =>
    have hsecond := congrArg (fun cs => cs[1]?) hcs
    cases hsign
    -- the second character of an infinity is a letter
    all_goals exact absurd (show some '0' = _ from hsecond) (by decide)
  | base hletter hplus h hne hlt hx hnearest =>
    obtain rfl := (List.cons.inj hcs).1
    exact absurd hsign (by decide)
  | decimal hsign hmantissa hpower hx hnearest =>
    -- no letter of a base is written in a decimal
    have hchar := isNumeralChar_of_decimal hsign hmantissa hpower letter (by simp [← hcs])
    rw [(baseLetters_spec _ hletter).2.2.1] at hchar
    cases hchar

end IsTakenFor

/-- The texts that are taken for a number, and for which one, are those of the grammar, with the
blanks around them left out. None of them is taken for the value that is not a number. The base is
looked up in the first two bytes, which is none if they end inside of a character, and if there is
one then the text can be cut after them. What has other characters than ASCII letters and digits,
signs and points is no number, nor is what has a sign before the zero of a base, nor anything
without a digit but for nothing at all and the infinities. -/
theorem coerce?_grammar (text : String) :
    (∀ x, coerce? text = some x ↔ IsTakenFor (Text.trimChars text.toList) x) ∧
    (∀ x, coerce? text = some x → x.isNaN = false) ∧
    (∀ base rest, takeBase (Text.trimChars text.toList) = some (base, rest) ↔
      ∃ letter, (letter, base) ∈ baseLetters ∧
        cutBytes? 2 (Text.trimChars text.toList) = some (['0', letter], rest)) ∧
    ((∃ c ∈ Text.trimChars text.toList, c.isAlphanum = false ∧ c ≠ '+' ∧ c ≠ '-' ∧ c ≠ '.') →
      coerce? text = none) ∧
    (∀ sign letter base rest, (sign = '+' ∨ sign = '-') → (letter, base) ∈ baseLetters →
      Text.trimChars text.toList = sign :: '0' :: letter :: rest → coerce? text = none) ∧
    (Text.trimChars text.toList ≠ [] →
      (∀ sign negative, IsSign sign negative →
        Text.trimChars text.toList ≠ sign ++ "Infinity".toList) →
      (∀ c ∈ Text.trimChars text.toList, c.isDigit = false) → coerce? text = none) := by
  have hread (x : Float) : coerce? text = some x ↔ IsTakenFor (Text.trimChars text.toList) x :=
    number?_eq_some_iff
  have hnone (h : ∀ x, ¬ IsTakenFor (Text.trimChars text.toList) x) : coerce? text = none :=
    Option.eq_none_iff_forall_ne_some.mpr fun x hx => h x ((hread x).mp hx)
  refine ⟨hread, fun x hx => ((hread x).mp hx).isNaN_eq_false,
    fun base rest => takeBase_eq_some_iff_cutBytes?, ?_, ?_, ?_⟩
  · rintro ⟨c, hc, halphanum, hplus, hminus, hpoint⟩
    refine hnone fun x hx => ?_
    rcases hx.chars c hc with h | h | h | h
    · rw [halphanum] at h
      cases h
    · exact hplus h
    · exact hminus h
    · exact hpoint h
  · intro sign letter base rest hsign hletter hcs
    refine hnone fun x hx => ?_
    rw [hcs] at hx
    exact IsTakenFor.not_signed_base hsign hletter hx
  · intro hne hinfinity hdigit
    refine hnone fun x hx => ?_
    rcases hx.exists_digit with h | ⟨sign, negative, hsign, h⟩ | ⟨c, hc, hd⟩
    · exact hne h
    · exact hinfinity sign negative hsign h
    · rw [hdigit c hc] at hd
      cases hd

example : ["inf", "nan", "-0x10", "1_000", "٣", "0é"].map coerce? = List.replicate 6 none := by
  decide

end ToyCpu
