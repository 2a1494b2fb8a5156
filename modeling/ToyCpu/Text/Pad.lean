/-!
# Padding

Texts brought to a least width. A text that is already that wide is kept whole.
-/

namespace ToyCpu.Text

/-- The text with `fill` before it up to the width. -/
def padLeft (width : Nat) (fill : Char) (text : String) : String :=
  String.ofList (List.replicate (width - text.length) fill) ++ text

/-- The text with blanks after it up to the width. -/
def padRight (width : Nat) (text : String) : String :=
  text ++ String.ofList (List.replicate (width - text.length) ' ')

end ToyCpu.Text
