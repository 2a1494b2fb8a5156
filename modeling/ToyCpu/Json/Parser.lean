import ToyCpu.Json.Basic

/-!
# Reading JSON

* `Json.parse?` — the tree of a text, which must hold one value and blanks around it.

Each step takes what it reads from the front of the characters and gives the rest.
-/

namespace ToyCpu.Json

/-- The blanks that may stand between the parts of a JSON text. -/
def isSpace (c : Char) : Bool := c == ' ' || c == '\n' || c == '\t' || c == '\r'

/-- The characters from the first that is no blank. -/
def skip (cs : List Char) : List Char := cs.dropWhile isSpace

/-! ### Strings -/

/-- Takes a string's text and the quote after it. Control characters must be escaped, and a
backslash must begin an escape. -/
def takeString : List Char → Option (List Char × List Char)
  | [] => none
  | '"' :: rest => some ([], rest)
  | '\\' :: 'u' :: a :: b :: c :: d :: rest =>
    if (codeUnit? a b c d).isSome then
      (takeString rest).map fun (raw, rest) => ('\\' :: 'u' :: a :: b :: c :: d :: raw, rest)
    else none
  | '\\' :: c :: rest =>
    if (shortEscape? c).isSome then
      (takeString rest).map fun (raw, rest) => ('\\' :: c :: raw, rest)
    else none
  | c :: rest =>
    if c.toNat < 0x20 || c == '\\' then none
    else (takeString rest).map fun (raw, rest) => (c :: raw, rest)

/-! ### Numbers -/

/-- Takes the digits at the front, and needs one. -/
def takeDigits (cs : List Char) : Option (List Char × List Char) :=
  match cs.takeWhile Char.isDigit with
  | [] => none
  | digits => some (digits, cs.dropWhile Char.isDigit)

/-- Takes an optional minus. -/
def takeMinus : List Char → List Char × List Char
  | '-' :: rest => (['-'], rest)
  | cs => ([], cs)

/-- Takes the digits before a point. Only 0 itself begins with 0. -/
def takeWhole (cs : List Char) : Option (List Char × List Char) :=
  match takeDigits cs with
  | some ('0' :: _ :: _, _) => none
  | taken => taken

/-- Takes an optional point with digits after it. -/
def takePoint : List Char → Option (List Char × List Char)
  | '.' :: rest => (takeDigits rest).map fun (digits, rest) => ('.' :: digits, rest)
  | cs => some ([], cs)

/-- Takes an optional sign. -/
def takeSign : List Char → List Char × List Char
  | '+' :: rest => (['+'], rest)
  | '-' :: rest => (['-'], rest)
  | cs => ([], cs)

/-- Takes an optional power of ten. -/
def takePower : List Char → Option (List Char × List Char)
  | c :: rest =>
    if c == 'e' || c == 'E' then do
      let (sign, rest) := takeSign rest
      let (digits, rest) ← takeDigits rest
      return (c :: sign ++ digits, rest)
    else some ([], c :: rest)
  | [] => some ([], [])

/-- Takes a number. -/
def takeNumber (cs : List Char) : Option (List Char × List Char) := do
  let (minus, rest) := takeMinus cs
  let (whole, rest) ← takeWhole rest
  let (point, rest) ← takePoint rest
  let (power, rest) ← takePower rest
  return (minus ++ whole ++ point ++ power, rest)

/-! ### Values -/

mutual

/-- Takes a value. The count bounds how deep it may go; twice the number of characters is
always enough. -/
def takeValue : Nat → List Char → Option (Json × List Char)
  | 0, _ => none
  | n + 1, cs =>
    match skip cs with
    | 'n' :: 'u' :: 'l' :: 'l' :: rest => some (.null, rest)
    | 't' :: 'r' :: 'u' :: 'e' :: rest => some (.bool true, rest)
    | 'f' :: 'a' :: 'l' :: 's' :: 'e' :: rest => some (.bool false, rest)
    | '"' :: rest => (takeString rest).map fun (raw, rest) => (.string raw, rest)
    | '[' :: rest =>
      match skip rest with
      | ']' :: rest => some (.array [], rest)
      | inner => (takeItems n inner).map fun (items, rest) => (.array items, rest)
    | '{' :: rest =>
      match skip rest with
      | '}' :: rest => some (.object [], rest)
      | inner => (takeMembers n inner).map fun (members, rest) => (.object members, rest)
    | start => (takeNumber start).map fun (literal, rest) => (.number literal, rest)

/-- Takes one or more values with commas between them and a closing bracket. -/
def takeItems : Nat → List Char → Option (List Json × List Char)
  | 0, _ => none
  | n + 1, cs => do
    let (item, rest) ← takeValue n cs
    match skip rest with
    | ']' :: rest => some ([item], rest)
    | ',' :: rest =>
      let (items, rest) ← takeItems n rest
      some (item :: items, rest)
    | _ => none

/-- Takes one or more keys and values with commas between them and a closing brace. -/
def takeMembers : Nat → List Char → Option (List (List Char × Json) × List Char)
  | 0, _ => none
  | n + 1, cs =>
    match skip cs with
    | '"' :: rest => do
      let (key, rest) ← takeString rest
      match skip rest with
      | ':' :: rest =>
        let (value, rest) ← takeValue n rest
        match skip rest with
        | '}' :: rest => some ([(key, value)], rest)
        | ',' :: rest =>
          let (members, rest) ← takeMembers n rest
          some ((key, value) :: members, rest)
        | _ => none
      | _ => none
    | _ => none

end

/-- The tree of a text. -/
def parse? (text : String) : Option Json :=
  let cs := text.toList
  match takeValue (2 * cs.length + 2) cs with
  | some (value, rest) => if (skip rest).isEmpty then some value else none
  | none => none

end ToyCpu.Json
