import ToyCpu.Address
import ToyCpu.Text.Blank
import ToyCpu.Value

/-!
# Registers

* `Register` — the name of a general register, `Register.ofToken?` reads one.
* `Registers` — the register file: the general registers, the registers that a
  fetch fills, and the accumulator.
-/

namespace ToyCpu

/-- A general register. -/
inductive Register where
  | r1 | r2 | r3
  deriving DecidableEq, Repr

namespace Register

/-- All general registers, in order. -/
def all : List Register := [r1, r2, r3]

/-- The name of a register. -/
def name : Register → String
  | r1 => "R1"
  | r2 => "R2"
  | r3 => "R3"

/-- The register that a token names. Blanks around it do not count, nor does the case of
its letter. -/
def ofToken? (token : String) : Option Register :=
  match Text.trimChars token.toList with
  | [c, d] =>
    if c == 'R' || c == 'r' then
      if d == '1' then some r1 else if d == '2' then some r2 else if d == '3' then some r3 else none
    else none
  | _ => none

end Register

/-- The register file. -/
structure Registers where
  r1 : Value := .number 0
  r2 : Value := .number 0
  r3 : Value := .number 0
  /-- The text of the instruction last fetched. -/
  ir : String := ""
  /-- The address last fetched from. -/
  mar : Option Address := none
  /-- What was last read by a fetch. -/
  mdr : String := ""
  /-- The accumulator: the last result of arithmetic or of a load. -/
  acc : Option Value := none

namespace Registers

/-- The value of a general register. -/
def get (regs : Registers) : Register → Value
  | .r1 => regs.r1
  | .r2 => regs.r2
  | .r3 => regs.r3

/-- Puts a value into a general register. -/
def set (regs : Registers) (r : Register) (v : Value) : Registers :=
  match r with
  | .r1 => { regs with r1 := v }
  | .r2 => { regs with r2 := v }
  | .r3 => { regs with r3 := v }

@[simp] theorem get_set (regs : Registers) (r s : Register) (v : Value) :
    (regs.set r v).get s = if r = s then v else regs.get s := by
  cases r <;> cases s <;> rfl

@[simp] theorem acc_set (regs : Registers) (r : Register) (v : Value) :
    (regs.set r v).acc = regs.acc := by
  cases r <;> rfl

end Registers

end ToyCpu
