import ToyCpu.Fault
import ToyCpu.Memory.Basic
import ToyCpu.Value

/-!
# Operands

What an operand token stands for.

* `Operand.address?` — the address that a token names.
* `Operand.resolve` — the value of a token.
-/

namespace ToyCpu.Operand

/-- The address that a token names through the number it is taken for: any spelling of a
whole number that is an address. -/
def address? (token : String) : Option Address :=
  match coerce? token with
  | none => none
  | some x =>
    match Binary64.natural? x with
    | some n => if n < 2 ^ 32 then some (UInt32.ofNat n) else none
    | none => none

/-- The address spelled by decimal digits alone. -/
def bareAddress? (digits : List Char) : Option Address :=
  let n := decimalNatural digits
  if n < 2 ^ 32 then some (UInt32.ofNat n) else none

/-- The value of a trimmed token. It is tried as a register, as an immediate after `#`, as
the address of a cell, as a number, and is otherwise a text. A register reads as its text
would, and an address without a cell is empty. -/
def value (token : String) (regs : Registers) (mem : Memory) : Value :=
  let cs := token.toList
  match Register.ofToken? token with
  | some r => (regs.get r).reread
  | none =>
    if cs.head? == some '#' then Value.parse (String.ofList cs.tail)
    else if !cs.isEmpty && cs.all Char.isDigit then
      match (bareAddress? cs).bind mem.read? with
      | some text => Value.parse text
      | none => .empty
    else if cs.isEmpty then .text token
    else
      match coerce? token with
      | some x => .number x
      | none => .text token

/-- The value of a token; only a missing one has none. -/
def resolve (token : Option String) (regs : Registers) (mem : Memory) : Except Fault Value :=
  match token with
  | none => .error .missingOperand
  | some t => .ok (value (Text.trim t) regs mem)

end ToyCpu.Operand
