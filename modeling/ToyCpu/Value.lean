import ToyCpu.Text.Blank
import ToyCpu.Decimal.Numeral
import ToyCpu.Decimal.Style

/-!
# Values

What a register holds or an operand resolves to: a number, a text, or nothing.
Text and numbers meet in two rules, which are inverse as far as they can be.

* `coerce?` — the number that a text is loosely taken for.
* `numberStyle` — how a number is written.
* `Value.parse`, `Value.display` — a value read from text and written as text.
* `Value.reread` — a value as it comes back after being written out.
-/

namespace ToyCpu

/-! ### Texts as numbers -/

/-- The characters that a decimal numeral is made of. -/
def isNumeralChar (c : Char) : Bool :=
  c.isDigit || c == '.' || c == 'e' || c == 'E' || c == '+' || c == '-'

/-- The base that a text names by its first two characters, and the text after them. -/
def takeBase : List Char → Option (Nat × List Char)
  | '0' :: c :: rest =>
    if c == 'x' || c == 'X' then some (16, rest)
    else if c == 'o' || c == 'O' then some (8, rest)
    else if c == 'b' || c == 'B' then some (2, rest)
    else none
  | _ => none

/-- A natural number below `2 ^ 64` in the base, with an optional plus, as the nearest float. -/
def baseNumber? (base : Nat) (cs : List Char) : Option Float :=
  let digits := match cs with
    | '+' :: rest => rest
    | _ => cs
  match radixNatural? base digits with
  | some n => if n < 2 ^ 64 then some (Binary64.ofMagnitude false (Binary64.nearestWord n 1)) else none
  | none => none

/-- The number that trimmed characters write. -/
def number? (cs : List Char) : Option Float :=
  if cs.isEmpty then some 0
  else if cs == "Infinity".toList || cs == "+Infinity".toList then
    some (Binary64.ofMagnitude false Binary64.infinityWord)
  else if cs == "-Infinity".toList then some (Binary64.ofMagnitude true Binary64.infinityWord)
  else
    match takeBase cs with
    | some (base, digits) => baseNumber? base digits
    | none => if cs.all isNumeralChar then (Numeral.ofChars? cs).map Numeral.toFloat else none

/-- The number that a text is taken for: blanks around it do not count, and nothing but
blanks is 0. It may be a decimal numeral, an infinity, or an integer after `0x`, `0o`
or `0b`. -/
def coerce? (text : String) : Option Float :=
  number? (Text.trimChars text.toList)

/-! ### Numbers as text -/

/-- Numbers are written plainly from a millionth to below `10 ^ 21`, whole numbers without
a point, and zero without a sign. -/
def numberStyle : Decimal.Style where
  tie := .up
  isPlain x := 1e-6 ≤ x && x < 1e21
  keepsPoint := false
  keepsZeroSign := false
  infinity := "Infinity"
  nan := "NaN"

/-- The text of a number. -/
def numberText (x : Float) : String := numberStyle.write x

/-! ### Values -/

/-- A scalar in a register or read from an operand. -/
inductive Value where
  | number (x : Float)
  | text (s : String)
  /-- What reading an address without a cell gives. -/
  | empty

namespace Value

/-- The value of a text: a number if it is taken for one or spells the value that is not a
number, and otherwise the text itself, untrimmed. -/
def parse (s : String) : Value :=
  match coerce? s with
  | some x => .number x
  | none => if Text.trim s == "NaN" then .number Binary64.nan else .text s

/-- The text of a value; an empty value has none. -/
def display : Value → String
  | .number x => numberText x
  | .text s => s
  | .empty => ""

/-- The text of a value in reports, where an empty one is spelled out. -/
def describe : Value → String
  | .empty => "null"
  | v => v.display

/-- The value as it comes back after being written out as text: an empty value as 0. -/
def reread : Value → Value
  | .number x => .number x
  | v => parse v.display

/-- The number that arithmetic uses; what is not a number counts as the value that says so. -/
def toNumber : Value → Float
  | .number x => x
  | .text s => (coerce? s).getD Binary64.nan
  | .empty => Binary64.nan

/-- The value is the number that is not a number. -/
def isNaN : Value → Bool
  | .number x => x.isNaN
  | _ => false

end Value

end ToyCpu
