import ToyCpu.Json.Reader
import ToyCpu.Register

/-!
# Scalars as JSON

Addresses and counts are written as natural numbers. Of the values, numbers are written as
numbers, except those that JSON has no number for: they are written as the text that displays
them. A text is read as `Value.parse` reads it, so those come back.

* `addressOfJson?`, `countOfJson?` — natural numbers of 32 and 64 bits.
* `jsonStyle` — how floats are written.
* `Value.toJson`, `Value.ofJson?` — a value as a tree.
-/

namespace ToyCpu

/-- The address that JSON says. -/
def addressOfJson? (j : Json) : Option Address := (j.natural? (2 ^ 32)).map UInt32.ofNat

/-- The count that JSON says. -/
def countOfJson? (j : Json) : Option UInt64 := (j.natural? (2 ^ 64)).map UInt64.ofNat

/-- Numbers in JSON are written plainly from a hundred-thousandth to below `10 ^ 16`, and
always with a point or an exponent. -/
def jsonStyle : Decimal.Style where
  tie := .toEven
  isPlain x := 1e-5 ≤ x && x < 1e16
  keepsPoint := true
  keepsZeroSign := true
  infinity := "inf"
  nan := "NaN"

namespace Value

/-- A value as JSON. -/
def toJson : Value → Json
  | .number x =>
    if x.isFinite then .number (jsonStyle.write x).toList else .ofText (numberText x)
  | .text s => .ofText s
  | .empty => .null

/-- The value that JSON says. -/
def ofJson? : Json → Option Value
  | .null => some .empty
  | .number literal => (Json.float? (.number literal)).map .number
  | .string raw => (Json.text? (.string raw)).map parse
  | _ => none

end Value

end ToyCpu
