/-!
# Binary64 words

A finite 64-bit float is a sign and a magnitude, and the magnitude's word (its
bits without the sign) orders like the magnitude itself. The word `w` stands for
`significand w * 2 ^ scale w / 2 ^ 1074`, so every question about exact values
is one about natural numbers.

* `magnitude`, `isNegative`, `ofMagnitude` — a float taken apart and put together.
* `significand`, `scale`, `word` — the fields of a magnitude's word.
* `nearestWord` — the word nearest to a quotient, a tie going to the even significand.
* `natural?` — the natural number that a float equals.
-/

-- powers of natural numbers are those of the core library, whatever else is in scope
attribute [instance (high), default_instance (high + 1)] instPowNat

namespace ToyCpu.Binary64

/-- The value that is not a number. -/
def nan : Float := Float.ofBits 0x7ff8000000000000

/-- The bits of a float without its sign. -/
def magnitude (x : Float) : Nat := x.toBits.toNat % 2 ^ 63

/-- The sign bit, which negative zero has too. -/
def isNegative (x : Float) : Bool := 2 ^ 63 ≤ x.toBits.toNat

/-- The float with the given sign and magnitude word. -/
def ofMagnitude (negative : Bool) (w : Nat) : Float :=
  Float.ofBits (UInt64.ofNat (if negative then 2 ^ 63 + w else w))

/-- The word of infinity; the words of finite magnitudes are those below it. -/
def infinityWord : Nat := 0x7ff * 2 ^ 52

/-! ### Fields of a magnitude -/

/-- The integer significand: with its leading bit, unless the word is subnormal. -/
def significand (w : Nat) : Nat :=
  if w < 2 ^ 52 then w else 2 ^ 52 + w % 2 ^ 52

/-- The power of two, counted from the least one, `2 ^ -1074`. -/
def scale (w : Nat) : Nat := w / 2 ^ 52 - 1

/-- The word with a significand and a scale. A significand of `2 ^ 53` carries into the scale. -/
def word (significand scale : Nat) : Nat := scale * 2 ^ 52 + significand

/-- A word is put together from its own fields. -/
theorem word_significand_scale (w : Nat) : word (significand w) (scale w) = w := by
  unfold word significand scale
  split <;> omega

theorem significand_lt (w : Nat) : significand w < 2 ^ 53 := by
  unfold significand
  split <;> omega

/-! ### Rounding to the nearest word -/

/-- The quotient rounded to the nearest natural number, a tie to the even one. -/
def roundHalfEven (num den : Nat) : Nat :=
  let quotient := num / den
  let remainder := num % den
  if 2 * remainder < den || (2 * remainder == den && quotient % 2 == 0) then quotient
  else quotient + 1

/-- The magnitude word nearest to `num / den`: infinity's from halfway past the largest
finite magnitude. -/
def nearestWord (num den : Nat) : Nat :=
  let scaled := num * 2 ^ 1074
  let scale := (scaled / den).log2 - 52
  min (word (roundHalfEven scaled (den * 2 ^ scale)) scale) infinityWord

/-! ### Natural values -/

/-- The natural number that the float equals; both zeros equal 0. -/
def natural? (x : Float) : Option Nat :=
  let w := magnitude x
  let scaled := significand w * 2 ^ scale w
  if w == 0 then some 0
  else if isNegative x || infinityWord ≤ w || scaled % 2 ^ 1074 != 0 then none
  else some (scaled / 2 ^ 1074)

end ToyCpu.Binary64
