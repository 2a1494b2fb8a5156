import ToyCpu.Decimal.Binary64

/-!
# Shortest decimals

The decimal with the fewest digits among those that read back as a given
float, and of those the one nearest to it.

A magnitude is surrounded by the interval of reals that round to it. For 1, 2,
… digits the value's two neighbours on that decimal grid are tested against the
interval; the first grid with a hit wins. Everything is exact: values and grid
points are natural numbers over a common denominator.

* `Interval` — a magnitude and the reals that round to it, in units of `2 ^ -1076`.
* `gridDigits?` — the neighbour of the value on one grid that lies in the interval.
* `shortest` — the digits and the place of the point.
-/

namespace ToyCpu.Decimal

/-- Which of two decimals equally near to a value is taken. -/
inductive TieRule where
  /-- The one with the even last digit. -/
  | toEven
  /-- The larger one. -/
  | up
  deriving DecidableEq, Repr

/-- A magnitude `center / 2 ^ 1076` and the reals that round to it. -/
structure Interval where
  low : Nat
  center : Nat
  high : Nat
  /-- Whether the two ends round to the magnitude too. -/
  closed : Bool

/-- The interval of a finite magnitude's word. It is narrower below a power of two. -/
def Interval.ofWord (w : Nat) : Interval :=
  let m := Binary64.significand w
  let unit := 2 ^ Binary64.scale w
  let below := if m == 2 ^ 52 && 2 ^ 53 ≤ w then unit else 2 * unit
  { low := 4 * m * unit - below
    center := 4 * m * unit
    high := 4 * m * unit + 2 * unit
    closed := m % 2 == 0 }

/-- Does `num / den`, in the interval's units, lie in the interval? -/
def Interval.holds (interval : Interval) (num den : Nat) : Bool :=
  if interval.closed then interval.low * den ≤ num && num ≤ interval.high * den
  else interval.low * den < num && num < interval.high * den

/-- The grid point `10 ^ e` in units of `2 ^ -1076`, as a quotient. -/
def gridUnit : Int → Nat × Nat
  | .ofNat k => (10 ^ k * 2 ^ 1076, 1)
  | .negSucc k => (2 ^ 1076, 10 ^ (k + 1))

/-- The multiple of `10 ^ e` in the interval that is nearest to its centre, of the two
beside the centre. -/
def gridDigits? (tie : TieRule) (interval : Interval) (e : Int) : Option Nat :=
  let (num, den) := gridUnit e
  let value := interval.center * den
  let under := value / num
  let below := value - under * num
  let above := (under + 1) * num - value
  let takesUnder := below < above || (below == above && tie == .toEven && under % 2 == 0)
  match interval.holds (under * num) den, interval.holds ((under + 1) * num) den with
  | true, true => some (if takesUnder then under else under + 1)
  | true, false => some under
  | false, true => some (under + 1)
  | false, false => none

/-- How many decimal digits a natural number has; one for 0. -/
def digitCount (n : Nat) : Nat :=
  if n < 10 then 1 else digitCount (n / 10) + 1
termination_by n

/-- The least `k` with the magnitude below `10 ^ k`. -/
def pointPlace (w : Nat) : Int :=
  let scaled := Binary64.significand w * 2 ^ Binary64.scale w * 10 ^ 330 / 2 ^ 1074
  (digitCount scaled : Int) - 330

/-- A positive decimal `0.d₁d₂… * 10 ^ point`, its last digit not 0. -/
structure Digits where
  digits : List Char
  point : Int
  deriving DecidableEq, Repr

/-- The digits of a natural number without the zeros at its end. -/
def trimmedDigits (n : Nat) : List Char :=
  ((Nat.toDigits 10 n).reverse.dropWhile (· == '0')).reverse

/-- The decimal of a multiple of `10 ^ e`. -/
def Digits.ofMultiple (n : Nat) (e : Int) : Digits :=
  ⟨trimmedDigits n, e + (Nat.toDigits 10 n).length⟩

/-- The shortest decimal of a finite, positive magnitude. Seventeen digits always suffice. -/
def shortest (tie : TieRule) (w : Nat) : Digits :=
  let interval := Interval.ofWord w
  let place := pointPlace w
  let found := (List.range 17).findSome? fun i =>
    let e := place - (i + 1 : Nat)
    (gridDigits? tie interval e).map (Digits.ofMultiple · e)
  found.getD ⟨[], place⟩

end ToyCpu.Decimal
