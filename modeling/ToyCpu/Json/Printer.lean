import ToyCpu.Json.Basic

/-!
# Writing JSON

* `Json.Spacing` — the blanks between the parts: none, or a line for every part.
* `Json.compact`, `Json.pretty` — the text of a tree.
-/

namespace ToyCpu.Json

/-- The blanks between the parts of a text. -/
structure Spacing where
  /-- What stands before a part that is so deep in the tree. -/
  lineStart : Nat → List Char
  /-- What stands between a key and its value. -/
  colon : List Char

/-- No blanks at all. -/
def Spacing.none : Spacing := ⟨fun _ => [], [':']⟩

/-- A line for every part, moved in by two blanks per level. -/
def Spacing.lines : Spacing := ⟨fun depth => '\n' :: List.replicate (2 * depth) ' ', [':', ' ']⟩

mutual

/-- The characters of a tree that stands so deep. Empty arrays and objects stay on their line. -/
def write (spacing : Spacing) (depth : Nat) : Json → List Char
  | .null => ['n', 'u', 'l', 'l']
  | .bool true => ['t', 'r', 'u', 'e']
  | .bool false => ['f', 'a', 'l', 's', 'e']
  | .number literal => literal
  | .string raw => '"' :: raw ++ ['"']
  | .array [] => ['[', ']']
  | .array (item :: items) =>
    '[' :: spacing.lineStart (depth + 1) ++ write spacing (depth + 1) item
      ++ writeItems spacing depth items
  | .object [] => ['{', '}']
  | .object ((key, value) :: members) =>
    '{' :: spacing.lineStart (depth + 1) ++ '"' :: key ++ '"' :: spacing.colon
      ++ write spacing (depth + 1) value ++ writeMembers spacing depth members

/-- The items after the first, and the closing bracket. -/
def writeItems (spacing : Spacing) (depth : Nat) : List Json → List Char
  | [] => spacing.lineStart depth ++ [']']
  | item :: items =>
    ',' :: spacing.lineStart (depth + 1) ++ write spacing (depth + 1) item
      ++ writeItems spacing depth items

/-- The members after the first, and the closing brace. -/
def writeMembers (spacing : Spacing) (depth : Nat) : List (List Char × Json) → List Char
  | [] => spacing.lineStart depth ++ ['}']
  | (key, value) :: members =>
    ',' :: spacing.lineStart (depth + 1) ++ '"' :: key ++ '"' :: spacing.colon
      ++ write spacing (depth + 1) value ++ writeMembers spacing depth members

end

/-- The text of a tree on one line. -/
def compact (j : Json) : String := String.ofList (write .none 0 j)

/-- The text of a tree on lines of its own. -/
def pretty (j : Json) : String := String.ofList (write .lines 0 j)

end ToyCpu.Json
