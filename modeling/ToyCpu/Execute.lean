import ToyCpu.Instruction
import ToyCpu.Operand

/-!
# Execution

What an instruction does to the registers and the memory.

* `Mnemonic` — the instructions there are.
* `Effect`, `Executed` — the account of an instruction and what it leaves behind.
* `execute` — the instruction carried out; a refused one changes nothing.
-/

namespace ToyCpu

/-- The account of an instruction. -/
structure Effect where
  /-- What was done, in one line. -/
  details : String
  /-- The arithmetic unit's view of it. -/
  alu : String
  /-- A fault that did not keep the instruction from being carried out. -/
  warning : Option Fault := none
  deriving DecidableEq, Repr

/-- The account of an instruction with the registers and the memory after it. -/
structure Executed where
  effect : Effect
  registers : Registers
  memory : Memory

/-- The four operations of arithmetic. -/
inductive Arithmetic where
  | add | sub | mul | div
  deriving DecidableEq, Repr

namespace Arithmetic

/-- The sign of an operation. -/
def sign : Arithmetic → String
  | add => "+"
  | sub => "-"
  | mul => "×"
  | div => "÷"

/-- The result of an operation, and what is wrong with it. A quotient by zero is not a
number. -/
def apply (op : Arithmetic) (x y : Float) : Float × Option Fault :=
  match op with
  | add => (x + y, none)
  | sub => (x - y, none)
  | mul => (x * y, none)
  | div => if y == 0 then (Binary64.nan, some .divisionByZero) else (x / y, none)

end Arithmetic

/-- What an instruction's mnemonic asks for. -/
inductive Mnemonic where
  | mov
  | arithmetic (op : Arithmetic)
  | load
  | store
  deriving DecidableEq, Repr

namespace Mnemonic

/-- The mnemonic spelled by a text, exactly. -/
def ofText? : String → Option Mnemonic
  | "MOV" => some mov
  | "ADD" => some (arithmetic .add)
  | "SUB" => some (arithmetic .sub)
  | "MUL" => some (arithmetic .mul)
  | "DIV" => some (arithmetic .div)
  | "LOAD" => some load
  | "STORE" => some store
  | _ => none

end Mnemonic

/-- The register that a destination token names. -/
def destination (token : String) : Except Fault Register :=
  match Register.ofToken? token with
  | some r => .ok r
  | none => .error (.invalidDestination (Text.upperCase token))

/-- `MOV dest, source` puts the value of an operand into a register. -/
def executeMov (operands : List String) (regs : Registers) (mem : Memory) : Except Fault Executed :=
  match operands with
  | dest :: source :: _ => do
    let v ← Operand.resolve (some source) regs mem
    let r ← destination dest
    return {
      effect := {
        details := "Moved " ++ v.display ++ " to " ++ r.name
        alu := "Move " ++ v.display ++ " into " ++ r.name }
      registers := regs.set r v
      memory := mem }
  | _ => .error .missingOperand

/-- `OP dest, a, b` puts the result of an operation into a register and the accumulator. -/
def executeArithmetic (op : Arithmetic) (operands : List String) (regs : Registers) (mem : Memory) :
    Except Fault Executed :=
  match operands with
  | dest :: first :: second :: _ => do
    let a ← Operand.resolve (some first) regs mem
    let b ← Operand.resolve (some second) regs mem
    let r ← destination dest
    let (x, warning) := op.apply a.toNumber b.toNumber
    let result := Value.number x
    return {
      effect := {
        details := a.describe ++ " " ++ op.sign ++ " " ++ b.describe ++ " = " ++ result.display
        alu := first ++ "(" ++ a.describe ++ ") " ++ op.sign ++ " " ++ second ++ "("
          ++ b.describe ++ ") = " ++ result.display ++ " → " ++ r.name
        warning := warning }
      registers := { regs with acc := some result }.set r result
      memory := mem }
  | _ => .error .missingOperand

/-- `LOAD dest, address` puts the value in a cell into a register and the accumulator. -/
def executeLoad (operands : List String) (regs : Registers) (mem : Memory) : Except Fault Executed :=
  match operands with
  | dest :: source :: _ =>
    match Operand.address? source with
    | none => .error (.addressNotFound source)
    | some a =>
      match mem.read? a with
      | none => .error (.addressNotFound source)
      | some text => do
        let r ← destination dest
        let v := Value.parse text
        return {
          effect := {
            details := "Loaded memory[" ++ addressText a ++ "] -> " ++ r.name
            alu := "Load address[" ++ addressText a ++ "](" ++ v.display ++ ") → " ++ r.name }
          registers := { regs with acc := some v }.set r v
          memory := mem }
  | _ => .error .missingOperand

/-- `STORE source, address` writes a register's text into a data cell. -/
def executeStore (operands : List String) (regs : Registers) (mem : Memory) : Except Fault Executed :=
  match operands with
  | source :: target :: _ =>
    match Register.ofToken? source, Operand.address? target with
    | some r, some a =>
      let text := (regs.get r).display
      .ok {
        effect := {
          details := "Stored " ++ r.name ++ "(" ++ text ++ ") -> memory[" ++ addressText a ++ "]"
          alu := "Store " ++ r.name ++ "(" ++ text ++ ") → address[" ++ addressText a ++ "]" }
        registers := regs
        memory := mem.store a text }
    | _, _ => .error (.invalidStore (Text.upperCase source) target)
  | _ => .error .missingOperand

/-- Carries out an instruction. Operands beyond those that it takes are ignored. -/
def execute (inst : Instruction) (regs : Registers) (mem : Memory) : Except Fault Executed :=
  match Mnemonic.ofText? inst.op with
  | some .mov => executeMov inst.operands regs mem
  | some (.arithmetic op) => executeArithmetic op inst.operands regs mem
  | some .load => executeLoad inst.operands regs mem
  | some .store => executeStore inst.operands regs mem
  | none => .error (.unknownInstruction inst.display)

end ToyCpu
