import ToyCpu.Text.Blank
import ToyCpu.Text.UpperCase

/-!
# Instructions

* `Instruction` — a mnemonic with its operand tokens.
* `Instruction.decode` — the instruction written in a cell.
* `Instruction.display` — an instruction in its canonical spelling.
-/

namespace ToyCpu

/-- A mnemonic and its operand tokens, of any number. -/
structure Instruction where
  op : String
  operands : List String
  deriving DecidableEq, Repr

namespace Instruction

/-- Blanks and commas separate the words of an instruction. -/
def isSeparator (c : Char) : Bool := Text.isBlank c || c == ','

/-- The instruction that a text writes: its first word in capitals, then the other words as
they are. A text without words has an empty mnemonic. -/
def decode (text : String) : Instruction :=
  match (Text.tokens isSeparator text.toList).map String.ofList with
  | [] => ⟨"", []⟩
  | op :: operands => ⟨Text.upperCase op, operands⟩

/-- The mnemonic, and the operands with a comma and a blank between them. -/
def display (inst : Instruction) : String :=
  match inst.operands with
  | [] => inst.op
  | operands => inst.op ++ " " ++ ", ".intercalate operands

end Instruction

end ToyCpu
