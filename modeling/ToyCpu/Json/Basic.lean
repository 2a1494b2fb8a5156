/-!
# JSON trees

A JSON text without its blanks. Numbers and strings stay as they are written,
because what they mean, and whether they mean anything, is up to whoever reads
them.

* `Json` — the tree; members keep their order, and a key may occur twice.
* `Json.escape`, `Json.unescape?` — the characters of a string and how they are written.
* `Json.ofText`, `Json.ofNat`, `Json.record` — trees for texts, natural numbers and structures.
-/

namespace ToyCpu

/-- A JSON text as a tree. -/
inductive Json where
  | null
  | bool (b : Bool)
  /-- A number, as it is written. -/
  | number (literal : List Char)
  /-- A string: what is written between its quotes. -/
  | string (raw : List Char)
  | array (items : List Json)
  /-- An object: each key is what is written between the key's quotes. -/
  | object (members : List (List Char × Json))

namespace Json

/-! ### Hexadecimal digits -/

/-- The value of a hexadecimal digit. -/
def hexValue? (c : Char) : Option Nat :=
  if '0' ≤ c ∧ c ≤ '9' then some (c.toNat - '0'.toNat)
  else if 'a' ≤ c ∧ c ≤ 'f' then some (c.toNat - 'a'.toNat + 10)
  else if 'A' ≤ c ∧ c ≤ 'F' then some (c.toNat - 'A'.toNat + 10)
  else none

/-- The code unit that four hexadecimal digits spell. -/
def codeUnit? (a b c d : Char) : Option Nat := do
  let a ← hexValue? a
  let b ← hexValue? b
  let c ← hexValue? c
  let d ← hexValue? d
  return ((a * 16 + b) * 16 + c) * 16 + d

/-! ### Strings -/

/-- How a character is written in a string. Quotes, backslashes and control characters are
escaped, all others stand for themselves. -/
def escapeChar (c : Char) : List Char :=
  if c == '"' then ['\\', '"']
  else if c == '\\' then ['\\', '\\']
  else if c == '\x08' then ['\\', 'b']
  else if c == '\t' then ['\\', 't']
  else if c == '\n' then ['\\', 'n']
  else if c == '\x0c' then ['\\', 'f']
  else if c == '\r' then ['\\', 'r']
  else if c.toNat < 0x20 then
    ['\\', 'u', '0', '0', Nat.digitChar (c.toNat / 16), Nat.digitChar (c.toNat % 16)]
  else [c]

/-- How characters are written in a string. -/
def escape (cs : List Char) : List Char := cs.flatMap escapeChar

/-- The character that a backslash with this letter stands for. -/
def shortEscape? (c : Char) : Option Char :=
  if c == '"' || c == '\\' || c == '/' then some c
  else if c == 'b' then some '\x08'
  else if c == 'f' then some '\x0c'
  else if c == 'n' then some '\n'
  else if c == 'r' then some '\r'
  else if c == 't' then some '\t'
  else none

/-- The code unit is the first or the second half of a pair. -/
def isLeading (unit : Nat) : Bool := 0xd800 ≤ unit && unit < 0xdc00

@[inherit_doc isLeading]
def isTrailing (unit : Nat) : Bool := 0xdc00 ≤ unit && unit < 0xe000

/-- The character of a pair of code units. -/
def pairChar (leading trailing : Nat) : Char :=
  Char.ofNat (0x10000 + (leading - 0xd800) * 0x400 + (trailing - 0xdc00))

/-- The characters that a string's text stands for; none if half of a pair stands alone. -/
def unescape? : List Char → Option (List Char)
  | [] => some []
  | '\\' :: 'u' :: a :: b :: c :: d :: '\\' :: 'u' :: e :: f :: g :: h :: rest =>
    match codeUnit? a b c d, codeUnit? e f g h with
    | some first, some second =>
      if isLeading first && isTrailing second then (unescape? rest).map (pairChar first second :: ·)
      else if isLeading first || isTrailing first then none
      else (unescape? ('\\' :: 'u' :: e :: f :: g :: h :: rest)).map (Char.ofNat first :: ·)
    | _, _ => none
  | '\\' :: 'u' :: a :: b :: c :: d :: rest =>
    match codeUnit? a b c d with
    | some unit =>
      if isLeading unit || isTrailing unit then none
      else (unescape? rest).map (Char.ofNat unit :: ·)
    | none => none
  | '\\' :: c :: rest =>
    match shortEscape? c with
    | some meant => (unescape? rest).map (meant :: ·)
    | none => none
  | c :: rest => (unescape? rest).map (c :: ·)

/-! ### Trees for texts and numbers -/

/-- A string that stands for a text. -/
def ofText (text : String) : Json := .string (escape text.toList)

/-- A natural number. -/
def ofNat (n : Nat) : Json := .number (Nat.toDigits 10 n)

/-- An object with the given fields. -/
def record (fields : List (String × Json)) : Json :=
  .object (fields.map fun (name, value) => (escape name.toList, value))

end Json

end ToyCpu
