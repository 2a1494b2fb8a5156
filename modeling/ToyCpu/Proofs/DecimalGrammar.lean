import Mathlib.Data.List.Induction
import Mathlib.Data.List.TakeWhile
import ToyCpu.Decimal.Numeral

/-!
# Decimal numerals as a grammar

The parts of a decimal numeral — a sign, digits with a point among them, a power of ten — as a
grammar that knows nothing of the reader, and the reader's functions as what finds the parts.

* `DigitsSpell` — digits of a base and the natural number that they spell.
* `IsSign`, `IsMantissa`, `IsPower` — the parts of a numeral.
* `radixNatural?_eq_some_iff`, `digitsSpell_ten_iff` — digits are read as what they spell.
* `Numeral.takeSign_spec`, `Numeral.takeFraction_spec`, `Numeral.exponent?_eq_some_iff` — the
  parts that are split off.
* `Numeral.ofChars?_eq_some_iff` — a numeral is read from its parts, and from nothing else.
-/

namespace ToyCpu

/-! ### Stretches of digits -/

/-- No digit comes first. -/
def NoDigitFirst (cs : List Char) : Prop := ∀ c ∈ cs.head?, c.isDigit = false

theorem noDigitFirst_nil : NoDigitFirst [] := nofun

theorem noDigitFirst_cons {c : Char} {cs : List Char} (h : c.isDigit = false) :
    NoDigitFirst (c :: cs) := by
  rintro d ⟨⟩
  exact h

/-- Digits are split off up to what does not begin with one. -/
theorem takeWhile_isDigit_append {ds rest : List Char} (hds : ∀ c ∈ ds, c.isDigit = true)
    (hrest : NoDigitFirst rest) :
    (ds ++ rest).takeWhile Char.isDigit = ds ∧ (ds ++ rest).dropWhile Char.isDigit = rest := by
  rw [List.takeWhile_append_of_pos hds, List.dropWhile_append_of_pos hds]
  cases rest with
  | nil => exact ⟨List.append_nil ds, rfl⟩
  | cons c cs =>
    have hc := hrest c rfl
    rw [List.takeWhile_cons_of_neg (by simp [hc]), List.dropWhile_cons_of_neg (by simp [hc])]
    exact ⟨List.append_nil ds, rfl⟩

/-! ### Digits -/

/-- A character is the digit of a base that stands for `d`, in either case. -/
def IsDigitOf (base : Nat) (c : Char) (d : Nat) : Prop :=
  d < base ∧ (c = Nat.digitChar d ∨ c = (Nat.digitChar d).toUpper)

/-- The characters are digits of a base that spell a natural number, the first of them counting
most. -/
inductive DigitsSpell (base : Nat) : List Char → Nat → Prop
  | nil : DigitsSpell base [] 0
  | snoc {cs : List Char} {n d : Nat} {c : Char} (h : DigitsSpell base cs n)
      (hd : IsDigitOf base c d) : DigitsSpell base (cs ++ [c]) (base * n + d)

/-! ### Parts of a numeral -/

/-- An optional sign, and whether it is a minus. -/
inductive IsSign : List Char → Bool → Prop
  | none : IsSign [] false
  | plus : IsSign ['+'] false
  | minus : IsSign ['-'] true

/-- Digits, digits with a point after or among them, or a point with digits after it: the number
that all the digits spell, and how many of them are after the point. -/
inductive IsMantissa : List Char → Nat → Nat → Prop
  | whole {ds : List Char} {n : Nat} (h : DigitsSpell 10 ds n) (hne : ds ≠ []) : IsMantissa ds n 0
  | pointed {ds fs : List Char} {n : Nat} (h : DigitsSpell 10 (ds ++ fs) n) (hne : ds ≠ []) :
      IsMantissa (ds ++ '.' :: fs) n fs.length
  | fraction {fs : List Char} {n : Nat} (h : DigitsSpell 10 fs n) (hne : fs ≠ []) :
      IsMantissa ('.' :: fs) n fs.length

/-- An optional power of ten, of either case and sign. -/
inductive IsPower : List Char → Int → Prop
  | none : IsPower [] 0
  | some {letter : Char} {sign ds : List Char} {negative : Bool} {n : Nat}
      (hletter : letter = 'e' ∨ letter = 'E') (hsign : IsSign sign negative)
      (h : DigitsSpell 10 ds n) (hne : ds ≠ []) :
      IsPower (letter :: (sign ++ ds)) (if negative then -n else n)

/-! ### Reading digits -/

/-- The digits up to nine and those above it are in two stretches of characters. -/
theorem digitChar_toNat {d : Nat} (h : d < 16) :
    (Nat.digitChar d).toNat = if d < 10 then 48 + d else 87 + d := by
  revert d
  decide

theorem digitChar_toUpper_toNat {d : Nat} (h : d < 16) :
    (Nat.digitChar d).toUpper.toNat = if d < 10 then 48 + d else 55 + d := by
  revert d
  decide

/-- The digits by their places among the characters. -/
theorem digitValue?_eq_some_iff {c : Char} {d : Nat} : digitValue? c = some d ↔
    c.toNat = 48 + d ∧ d < 10 ∨ c.toNat = 87 + d ∧ 10 ≤ d ∧ d < 36 ∨
      c.toNat = 55 + d ∧ 10 ≤ d ∧ d < 36 := by
  have hdigit : ('0' ≤ c ∧ c ≤ '9') ↔ 48 ≤ c.toNat ∧ c.toNat ≤ 57 := Iff.rfl
  have hsmall : ('a' ≤ c ∧ c ≤ 'z') ↔ 97 ≤ c.toNat ∧ c.toNat ≤ 122 := Iff.rfl
  have hcapital : ('A' ≤ c ∧ c ≤ 'Z') ↔ 65 ≤ c.toNat ∧ c.toNat ≤ 90 := Iff.rfl
  have hplaces : '0'.toNat = 48 ∧ 'a'.toNat = 97 ∧ 'A'.toNat = 65 := ⟨rfl, rfl, rfl⟩
  unfold digitValue?
  simp only [hdigit, hsmall, hcapital, hplaces]
  split
  · rw [Option.some.injEq]
    omega
  · split
    · rw [Option.some.injEq]
      omega
    · split
      · rw [Option.some.injEq]
        omega
      · exact ⟨nofun, fun h => by omega⟩

/-- The value of a digit is the one that it stands for. -/
theorem isDigitOf_iff {base d : Nat} {c : Char} (hbase : base ≤ 16) :
    IsDigitOf base c d ↔ digitValue? c = some d ∧ d < base := by
  unfold IsDigitOf
  rw [and_comm]
  refine and_congr_left fun hd => ?_
  rw [← Char.toNat_inj, ← Char.toNat_inj, digitChar_toNat (by omega),
    digitChar_toUpper_toNat (by omega), digitValue?_eq_some_iff]
  -- below ten both cases have the same digit, and above they are 32 places apart
  by_cases hten : d < 10
  · rw [if_pos hten, if_pos hten]
    omega
  · rw [if_neg hten, if_neg hten]
    omega

/-- Digits of every base up to sixteen are letters or decimal digits. -/
theorem isAlphanum_of_isDigitOf {base d : Nat} {c : Char} (hbase : base ≤ 16)
    (h : IsDigitOf base c d) : c.isAlphanum = true := by
  have hall : ∀ d < 16, (Nat.digitChar d).isAlphanum = true ∧
      (Nat.digitChar d).toUpper.isAlphanum = true := by decide
  obtain ⟨hd, rfl | rfl⟩ := h
  · exact (hall d (by omega)).1
  · exact (hall d (by omega)).2

/-- Digits that spell a number are digits one by one. -/
theorem DigitsSpell.mem {base n : Nat} {cs : List Char} (h : DigitsSpell base cs n) :
    ∀ c ∈ cs, ∃ d, IsDigitOf base c d := by
  induction h with
  | nil => exact nofun
  | snoc h hd ih =>
    intro c hc
    rcases List.mem_append.mp hc with hc | hc
    · exact ih c hc
    · rw [List.mem_singleton.mp hc]
      exact ⟨_, hd⟩

/-- The value of one more digit. -/
def appendDigit? (base n : Nat) (c : Char) : Option Nat :=
  match digitValue? c with
  | some d => if d < base then some (base * n + d) else none
  | none => none

/-- One more digit is read exactly where it is one of the base. -/
theorem appendDigit?_eq_some_iff {base n m : Nat} {c : Char} (hbase : base ≤ 16) :
    appendDigit? base n c = some m ↔ ∃ d, IsDigitOf base c d ∧ m = base * n + d := by
  simp only [isDigitOf_iff hbase]
  unfold appendDigit?
  constructor
  · intro h
    split at h
    · next d hvalue =>
      rw [Option.ite_none_right_eq_some] at h
      exact ⟨d, ⟨hvalue, h.1⟩, (Option.some.inj h.2).symm⟩
    · cases h
  · rintro ⟨d, ⟨hvalue, hd⟩, rfl⟩
    rw [hvalue]
    exact if_pos hd

theorem digitsSpell_nil_iff {base n : Nat} : DigitsSpell base [] n ↔ n = 0 := by
  constructor
  · intro h
    generalize hcs : ([] : List Char) = cs at h
    cases h with
    | nil => rfl
    | snoc => simp at hcs
  · rintro rfl
    exact .nil

/-- The last digit counts once, and the number before it as often as the base says. -/
theorem digitsSpell_snoc_iff {base m : Nat} {cs : List Char} {c : Char} :
    DigitsSpell base (cs ++ [c]) m ↔
      ∃ n d, DigitsSpell base cs n ∧ IsDigitOf base c d ∧ m = base * n + d := by
  constructor
  · intro h
    -- the text has to be a variable here, since the constructors put it together otherwise
    generalize hall : cs ++ [c] = all at h
    cases h with
    | nil => simp at hall
    | snoc h hd =>
      obtain ⟨rfl, hlast⟩ := List.append_inj' hall rfl
      cases hlast
      exact ⟨_, _, h, hd, rfl⟩
  · rintro ⟨n, d, h, hd, rfl⟩
    exact .snoc h hd

/-- Reading the digits of a base gives what they spell. -/
theorem foldlM_appendDigit?_eq_some_iff {base : Nat} (hbase : base ≤ 16) (cs : List Char)
    (n : Nat) : cs.foldlM (appendDigit? base) 0 = some n ↔ DigitsSpell base cs n := by
  -- by induction from the end, since both sides add the last digit last
  induction cs using List.reverseRecOn generalizing n with
  | nil =>
    rw [digitsSpell_nil_iff, List.foldlM_nil]
    exact ⟨fun h => (Option.some.inj h).symm, fun h => congrArg some h.symm⟩
  | append_singleton cs c ih =>
    -- the last digit is added to what all others were read as
    have hone (m : Nat) : [c].foldlM (appendDigit? base) m = appendDigit? base m c := by
      rw [List.foldlM_cons]
      exact bind_pure _
    rw [List.foldlM_append, digitsSpell_snoc_iff]
    simp only [Option.bind_eq_bind, Option.bind_eq_some_iff, hone, ih,
      appendDigit?_eq_some_iff hbase]
    constructor
    · rintro ⟨m, hm, d, hd, rfl⟩
      exact ⟨m, d, hm, hd, rfl⟩
    · rintro ⟨m, d, hm, hd, rfl⟩
      exact ⟨m, hm, d, hd, rfl⟩

/-- There must be a digit, and then they are read as what they spell. -/
theorem radixNatural?_eq_some_iff {base n : Nat} {cs : List Char} (hbase : base ≤ 16) :
    radixNatural? base cs = some n ↔ cs ≠ [] ∧ DigitsSpell base cs n := by
  rw [← foldlM_appendDigit?_eq_some_iff hbase]
  cases cs with
  | nil => exact ⟨nofun, fun h => absurd rfl h.1⟩
  | cons c cs => exact ⟨fun h => ⟨List.cons_ne_nil c cs, h⟩, And.right⟩

/-- Decimal digits spell the number that is read from them. -/
theorem digitsSpell_ten_iff {cs : List Char} {n : Nat} :
    DigitsSpell 10 cs n ↔ (∀ c ∈ cs, c.isDigit = true) ∧ n = decimalNatural cs := by
  induction cs using List.reverseRecOn generalizing n with
  | nil =>
    rw [digitsSpell_nil_iff]
    exact ⟨fun h => ⟨nofun, h⟩, And.right⟩
  | append_singleton cs c ih =>
    have hdigit (d : Nat) : IsDigitOf 10 c d ↔ c.isDigit = true ∧ d = c.toNat - '0'.toNat := by
      have hzero : '0'.toNat = 48 := rfl
      have hplaces : c.isDigit = true ↔ 48 ≤ c.toNat ∧ c.toNat ≤ 57 := Char.isDigit_iff_toNat
      rw [isDigitOf_iff (by omega), digitValue?_eq_some_iff, hplaces, hzero]
      omega
    have hlast : decimalNatural (cs ++ [c]) = 10 * decimalNatural cs + (c.toNat - '0'.toNat) := by
      unfold decimalNatural
      rw [List.foldl_append]
      rfl
    simp only [digitsSpell_snoc_iff, ih, hdigit, hlast, List.mem_append, List.mem_singleton]
    constructor
    · rintro ⟨m, d, ⟨hcs, rfl⟩, ⟨hc, rfl⟩, rfl⟩
      refine ⟨?_, rfl⟩
      rintro e (he | rfl)
      · exact hcs e he
      · exact hc
    · rintro ⟨hall, rfl⟩
      exact ⟨_, _, ⟨fun e he => hall e (.inl he), rfl⟩, ⟨hall c (.inr rfl), rfl⟩, rfl⟩

/-! ### Reading a numeral -/

theorem IsSign.mem {sign : List Char} {negative : Bool} (h : IsSign sign negative) :
    ∀ c ∈ sign, c = '+' ∨ c = '-' := by
  cases h with
  | none => exact nofun
  | plus => exact fun c hc => .inl (List.mem_singleton.mp hc)
  | minus => exact fun c hc => .inr (List.mem_singleton.mp hc)

/-- No sign comes first. -/
def NoSignFirst (cs : List Char) : Prop := ∀ c ∈ cs.head?, c ≠ '+' ∧ c ≠ '-'

theorem noSignFirst_digits {ds : List Char} (hds : ∀ c ∈ ds, c.isDigit = true) (hne : ds ≠ [])
    (rest : List Char) : NoSignFirst (ds ++ rest) := by
  obtain ⟨d, ds, rfl⟩ := List.exists_cons_of_ne_nil hne
  have hd := hds d List.mem_cons_self
  rintro c ⟨⟩
  constructor
  · rintro rfl
    cases hd
  · rintro rfl
    cases hd

/-- A mantissa is digits with a point among them, which is needed only for digits after it. -/
theorem isMantissa_iff {mantissa : List Char} {n places : Nat} :
    IsMantissa mantissa n places ↔ ∃ ds fs, ∃ point : Bool,
      mantissa = ds ++ (if point then '.' :: fs else []) ∧ (∀ c ∈ ds, c.isDigit = true) ∧
      (∀ c ∈ fs, c.isDigit = true) ∧ (ds ≠ [] ∨ fs ≠ []) ∧ (point = false → fs = []) ∧
      n = decimalNatural (ds ++ fs) ∧ places = fs.length := by
  constructor
  · intro h
    cases h with
    | whole h hne =>
      obtain ⟨hdigits, rfl⟩ := digitsSpell_ten_iff.mp h
      exact ⟨mantissa, [], false, (List.append_nil _).symm, hdigits, nofun, .inl hne,
        fun _ => rfl, by rw [List.append_nil], rfl⟩
    | @pointed ds fs _ h hne =>
      obtain ⟨hdigits, rfl⟩ := digitsSpell_ten_iff.mp h
      obtain ⟨hds, hfs⟩ := List.forall_mem_append.mp hdigits
      exact ⟨ds, fs, true, rfl, hds, hfs, .inl hne, nofun, rfl, rfl⟩
    | @fraction fs _ h hne =>
      obtain ⟨hdigits, rfl⟩ := digitsSpell_ten_iff.mp h
      exact ⟨[], fs, true, rfl, nofun, hdigits, .inr hne, nofun, rfl, rfl⟩
  · rintro ⟨ds, fs, point, rfl, hds, hfs, hne, hpoint, rfl, rfl⟩
    have hspell := digitsSpell_ten_iff.mpr ⟨List.forall_mem_append.mpr ⟨hds, hfs⟩, rfl⟩
    -- without digits before the point there must be some after it
    by_cases hwhole : ds = []
    · have hfraction := hne.resolve_left (not_not_intro hwhole)
      cases point with
      | false => exact absurd (hpoint rfl) hfraction
      | true =>
        subst hwhole
        exact .fraction hspell hfraction
    · cases point with
      | false =>
        obtain rfl := hpoint rfl
        have hdigits : ds ++ (if false then ['.'] else []) = ds := List.append_nil ds
        rw [List.append_nil] at hspell
        rw [hdigits, List.append_nil]
        exact .whole hspell hwhole
      | true => exact .pointed hspell hwhole

namespace Numeral

/-- What is split off is a sign. -/
theorem takeSign_spec (cs : List Char) :
    ∃ sign, IsSign sign (takeSign cs).1 ∧ cs = sign ++ (takeSign cs).2 := by
  unfold takeSign
  split
  · exact ⟨['-'], .minus, rfl⟩
  · exact ⟨['+'], .plus, rfl⟩
  · exact ⟨[], .none, rfl⟩

/-- A sign is split off whole, if no other follows it. -/
theorem takeSign_of_isSign {sign rest : List Char} {negative : Bool} (h : IsSign sign negative)
    (hrest : NoSignFirst rest) : takeSign (sign ++ rest) = (negative, rest) := by
  cases h with
  | none =>
    rw [List.nil_append]
    unfold takeSign
    split
    · exact absurd rfl (hrest '-' rfl).2
    · exact absurd rfl (hrest '+' rfl).1
    · rfl
  | plus => rfl
  | minus => rfl

/-- What is split off is a point with digits, or nothing. -/
theorem takeFraction_spec (cs : List Char) :
    (cs = '.' :: ((takeFraction cs).1 ++ (takeFraction cs).2) ∨
      (takeFraction cs).1 = [] ∧ (takeFraction cs).2 = cs) ∧
    ∀ c ∈ (takeFraction cs).1, c.isDigit = true := by
  unfold takeFraction
  split
  · next rest =>
    rw [List.takeWhile_append_dropWhile]
    exact ⟨.inl rfl, fun c hc => List.mem_takeWhile_imp hc⟩
  · exact ⟨.inr ⟨rfl, rfl⟩, nofun⟩

/-- A power of ten is read as what it is. -/
theorem exponent?_eq_some_iff {cs : List Char} {e : Int} :
    exponent? cs = some e ↔ IsPower cs e := by
  constructor
  · intro h
    cases cs with
    | nil =>
      cases h
      exact .none
    | cons letter rest =>
      obtain ⟨sign, hsign, hrest⟩ := takeSign_spec rest
      unfold exponent? at h
      simp only at h
      split at h
      · next htest =>
        simp only [Bool.and_eq_true, Bool.or_eq_true, beq_iff_eq, Bool.not_eq_true',
          List.isEmpty_eq_false_iff, List.all_eq_true] at htest
        obtain ⟨⟨hletter, hne⟩, hdigits⟩ := htest
        rw [hrest, ← Option.some.inj h]
        exact .some hletter hsign (digitsSpell_ten_iff.mpr ⟨hdigits, rfl⟩) hne
      · cases h
  · intro h
    cases h with
    | none => rfl
    | @some letter sign ds negative n hletter hsign h hne =>
      obtain ⟨hdigits, rfl⟩ := digitsSpell_ten_iff.mp h
      have hfirst := noSignFirst_digits hdigits hne []
      rw [List.append_nil] at hfirst
      have htest : (letter == 'e' || letter == 'E') && !ds.isEmpty && ds.all Char.isDigit := by
        rw [List.all_eq_true.mpr hdigits, List.isEmpty_eq_false_iff.mpr hne]
        rcases hletter with rfl | rfl
        · rfl
        · rfl
      unfold exponent?
      simp only
      rw [takeSign_of_isSign hsign hfirst]
      exact if_pos htest

theorem noDigitFirst_of_isPower {power : List Char} {e : Int} (h : IsPower power e) :
    NoDigitFirst power ∧ ∀ cs, power ≠ '.' :: cs := by
  cases h with
  | none => exact ⟨noDigitFirst_nil, nofun⟩
  | some hletter hsign h hne =>
    rcases hletter with rfl | rfl
    · exact ⟨noDigitFirst_cons rfl, nofun⟩
    · exact ⟨noDigitFirst_cons rfl, nofun⟩

/-- Digits with a sign before them, a point among them or not, and a power of ten after them are
read as what they are. -/
theorem ofChars?_append {sign ds fs power : List Char} {negative : Bool} {e : Int} (point : Bool)
    (hsign : IsSign sign negative) (hds : ∀ c ∈ ds, c.isDigit = true)
    (hfs : ∀ c ∈ fs, c.isDigit = true) (hne : ds ≠ [] ∨ fs ≠ []) (hpoint : point = false → fs = [])
    (hpower : IsPower power e) :
    ofChars? (sign ++ (ds ++ ((if point then '.' :: fs else []) ++ power)))
      = some ⟨negative, ds, fs, e⟩ := by
  obtain ⟨hpowerFirst, hpowerPoint⟩ := noDigitFirst_of_isPower hpower
  have hfirst : NoDigitFirst ((if point then '.' :: fs else []) ++ power) := by
    cases point
    · exact hpowerFirst
    · exact noDigitFirst_cons rfl
  have hunsigned : NoSignFirst (ds ++ ((if point then '.' :: fs else []) ++ power)) := by
    by_cases hwhole : ds = []
    · -- then there are digits after the point, and the point is first
      cases point with
      | false => exact absurd (hpoint rfl) (hne.resolve_left (not_not_intro hwhole))
      | true =>
        subst hwhole
        rintro c ⟨⟩
        exact ⟨nofun, nofun⟩
    · exact noSignFirst_digits hds hwhole _
  have hfraction : takeFraction ((if point then '.' :: fs else []) ++ power) = (fs, power) := by
    cases point with
    | false =>
      rw [hpoint rfl]
      unfold takeFraction
      split
      · next rest heq => exact absurd heq (hpowerPoint rest)
      · rfl
    | true =>
      obtain ⟨htake, hdrop⟩ := takeWhile_isDigit_append hfs hpowerFirst
      exact congrArg₂ Prod.mk htake hdrop
  obtain ⟨htake, hdrop⟩ := takeWhile_isDigit_append hds hfirst
  have hsome : (ds.isEmpty && fs.isEmpty) = false := by
    rw [Bool.and_eq_false_iff, List.isEmpty_eq_false_iff, List.isEmpty_eq_false_iff]
    exact hne
  unfold ofChars?
  rw [takeSign_of_isSign hsign hunsigned]
  simp only
  rw [htake, hdrop, hfraction, exponent?_eq_some_iff.mpr hpower, hsome]
  rfl

/-- Characters are read as a numeral exactly if they are put together from its parts. -/
theorem ofChars?_eq_some_iff {cs : List Char} {numeral : Numeral} :
    ofChars? cs = some numeral ↔ ∃ sign power, ∃ point : Bool,
      cs = sign ++ (numeral.whole ++ ((if point then '.' :: numeral.fraction else []) ++ power)) ∧
      IsSign sign numeral.negative ∧ (∀ c ∈ numeral.whole, c.isDigit = true) ∧
      (∀ c ∈ numeral.fraction, c.isDigit = true) ∧
      (numeral.whole ≠ [] ∨ numeral.fraction ≠ []) ∧ (point = false → numeral.fraction = []) ∧
      IsPower power numeral.exponent := by
  constructor
  · intro h
    obtain ⟨sign, hsign, hunsigned⟩ := takeSign_spec cs
    -- taken apart in the reader's order: the sign, the digits, the point with its digits, the power
    unfold ofChars? at h
    generalize takeSign cs = taken at *
    obtain ⟨negative, unsigned⟩ := taken
    simp only at h
    split at h
    · cases h
    · next hsome =>
      obtain ⟨e, hexponent, rfl⟩ := Option.map_eq_some_iff.mp h
      have hparts := List.takeWhile_append_dropWhile (p := Char.isDigit) (l := unsigned)
      obtain ⟨hsplit, hfs⟩ := takeFraction_spec (unsigned.dropWhile Char.isDigit)
      have hds : ∀ c ∈ unsigned.takeWhile Char.isDigit, c.isDigit = true :=
        fun c hc => List.mem_takeWhile_imp hc
      rw [Bool.and_eq_true, List.isEmpty_iff, List.isEmpty_iff, not_and_or] at hsome
      have hpower := exponent?_eq_some_iff.mp hexponent
      -- a point that is split off is put back with its digits, and one that is not was not there
      rcases hsplit with hpoint | ⟨hempty, hrest⟩
      · refine ⟨sign, _, true, ?_, hsign, hds, hfs, hsome, nofun, hpower⟩
        rw [hunsigned, if_pos rfl, List.cons_append, ← hpoint, hparts]
      · refine ⟨sign, _, false, ?_, hsign, hds, hfs, hsome, fun _ => hempty, hpower⟩
        rw [hunsigned, if_neg nofun, List.nil_append, hrest, hparts]
  · rintro ⟨sign, power, point, rfl, hsign, hds, hfs, hne, hpoint, hpower⟩
    exact ofChars?_append point hsign hds hfs hne hpoint hpower

end Numeral

end ToyCpu
