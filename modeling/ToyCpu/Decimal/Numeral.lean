import ToyCpu.Decimal.Binary64

/-!
# Numerals

Decimal numerals as text: an optional sign, digits with an optional point
somewhere among them, and an optional power of ten.

* `Numeral` — the parts of a numeral, `Numeral.ofChars?` reads them.
* `Numeral.toFloat` — the float nearest to what the numeral says.
* `radixNatural?` — natural numbers in another base.
-/

namespace ToyCpu

/-- A decimal numeral, taken apart but not evaluated. -/
structure Numeral where
  negative : Bool
  /-- The digits before the point. -/
  whole : List Char
  /-- The digits after the point. -/
  fraction : List Char
  /-- The power of ten. -/
  exponent : Int
  deriving DecidableEq, Repr

/-- The value of an ASCII digit or letter as a digit: `0` to `35`. -/
def digitValue? (c : Char) : Option Nat :=
  if '0' ≤ c ∧ c ≤ '9' then some (c.toNat - '0'.toNat)
  else if 'a' ≤ c ∧ c ≤ 'z' then some (c.toNat - 'a'.toNat + 10)
  else if 'A' ≤ c ∧ c ≤ 'Z' then some (c.toNat - 'A'.toNat + 10)
  else none

/-- The natural number that decimal digits spell; 0 for none. -/
def decimalNatural (digits : List Char) : Nat :=
  digits.foldl (fun n c => 10 * n + (c.toNat - '0'.toNat)) 0

/-- The natural number spelled by one or more digits of the base. -/
def radixNatural? (base : Nat) : List Char → Option Nat
  | [] => none
  | digits => digits.foldlM (fun n c =>
      match digitValue? c with
      | some d => if d < base then some (base * n + d) else none
      | none => none) 0

namespace Numeral

/-- Splits off an optional sign: whether it was a minus, and what follows. -/
def takeSign : List Char → Bool × List Char
  | '-' :: rest => (true, rest)
  | '+' :: rest => (false, rest)
  | cs => (false, cs)

/-- Splits off an optional point with digits after it. -/
def takeFraction : List Char → List Char × List Char
  | '.' :: rest => (rest.takeWhile Char.isDigit, rest.dropWhile Char.isDigit)
  | cs => ([], cs)

/-- The power of ten written by all of the characters: none of them means 0. -/
def exponent? : List Char → Option Int
  | [] => some 0
  | c :: rest =>
    let (negative, digits) := takeSign rest
    if (c == 'e' || c == 'E') && !digits.isEmpty && digits.all Char.isDigit then
      some (if negative then -(decimalNatural digits : Int) else decimalNatural digits)
    else none

/-- The numeral that all of the characters write. There must be a digit before or
after the point. -/
def ofChars? (cs : List Char) : Option Numeral :=
  let (negative, unsigned) := takeSign cs
  let whole := unsigned.takeWhile Char.isDigit
  let (fraction, rest) := takeFraction (unsigned.dropWhile Char.isDigit)
  if whole.isEmpty && fraction.isEmpty then none
  else (exponent? rest).map (⟨negative, whole, fraction, ·⟩)

/-- The magnitude word nearest to `n * 10 ^ e`, where `n` has at most `digits` digits.
Powers far outside the range of floats are not computed: what they scale is
infinite or zero. -/
def scaledWord (n digits : Nat) (e : Int) : Nat :=
  if n == 0 || e + digits < -330 then 0
  else if 310 < e then Binary64.infinityWord
  else
    match e with
    | .ofNat k => Binary64.nearestWord (n * 10 ^ k) 1
    | .negSucc k => Binary64.nearestWord n (10 ^ (k + 1))

/-- The float nearest to the numeral's value. -/
def toFloat (numeral : Numeral) : Float :=
  let digits := numeral.whole ++ numeral.fraction
  Binary64.ofMagnitude numeral.negative
    (scaledWord (decimalNatural digits) digits.length
      (numeral.exponent - numeral.fraction.length))

end Numeral

end ToyCpu
