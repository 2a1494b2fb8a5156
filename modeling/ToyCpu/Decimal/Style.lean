import ToyCpu.Decimal.Shortest

/-!
# Ways to write a float

A float is written with its shortest digits. What remains to be decided — when an
exponent is used, whether a whole number keeps its point, how zero, the
infinities and the value that is not a number are spelled — is a `Style`.

* `Style` — the decisions.
* `Style.write` — the text of a float.
-/

namespace ToyCpu.Decimal

/-- How floats are written. -/
structure Style where
  /-- Which of two equally near decimals is written. -/
  tie : TieRule
  /-- The magnitudes written without an exponent; zero always is. -/
  isPlain : Float → Bool
  /-- A number without a fraction ends in `.0`, unless it has an exponent. -/
  keepsPoint : Bool
  /-- Negative zero keeps its sign. -/
  keepsZeroSign : Bool
  /-- The spelling of infinity, which a minus may precede. -/
  infinity : String
  /-- The spelling of the value that is not a number. -/
  nan : String

/-- Digits with a point where it belongs and zeros in between. -/
def writePlain (keepsPoint : Bool) (d : Digits) : List Char :=
  let count : Int := d.digits.length
  if d.point ≤ 0 then
    '0' :: '.' :: List.replicate (-d.point).toNat '0' ++ d.digits
  else if d.point < count then
    d.digits.take d.point.toNat ++ '.' :: d.digits.drop d.point.toNat
  else
    d.digits ++ List.replicate (d.point - count).toNat '0'
      ++ (if keepsPoint then ['.', '0'] else [])

/-- Digits with a point after the first one, and a signed exponent. -/
def writeExponent (d : Digits) : List Char :=
  let exponent := d.point - 1
  let fraction := d.digits.drop 1
  d.digits.take 1 ++ (if fraction.isEmpty then [] else '.' :: fraction)
    ++ 'e' :: (if exponent < 0 then '-' else '+') :: Nat.toDigits 10 exponent.natAbs

/-- The text of a float. -/
def Style.write (style : Style) (x : Float) : String :=
  let w := Binary64.magnitude x
  let sign := if Binary64.isNegative x then ['-'] else []
  if Binary64.infinityWord < w then style.nan
  else if w == Binary64.infinityWord then String.ofList sign ++ style.infinity
  else if w == 0 then
    String.ofList ((if style.keepsZeroSign then sign else [])
      ++ '0' :: (if style.keepsPoint then ['.', '0'] else []))
  else
    let d := shortest style.tie w
    String.ofList (sign ++
      (if style.isPlain x.abs then writePlain style.keepsPoint d else writeExponent d))

end ToyCpu.Decimal
