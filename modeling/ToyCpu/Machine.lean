import ToyCpu.Memory.Load

/-!
# Machines

Everything that a running program changes, and the changes a host makes to it.

* `Machine` — registers, program counter, memory and the count of instructions.
* `Machine.reset` — what a stop does.
* `Edit`, `Machine.apply` — host edits.
-/

namespace ToyCpu

/-- The state of the processor and its memory. -/
structure Machine where
  registers : Registers
  pc : Address
  memory : Memory
  /-- The instructions started since the session began; it numbers the trace. -/
  started : UInt64

namespace Machine

/-- A machine at the start of a memory's program. -/
def new (memory : Memory) : Machine where
  registers := {}
  pc := memory.entry
  memory := memory
  started := 0

/-- What a stop does: the program counter goes back to the entry address and the registers
are cleared. The memory and the count stay. -/
def reset (m : Machine) : Machine :=
  { m with registers := {}, pc := m.memory.entry }

end Machine

/-- A change that a host makes to a machine. -/
inductive Edit where
  /-- Writes a trimmed text to a cell, of the kind that the address suggests unless one is
  named. -/
  | setCell (a : Address) (text : String) (kind : Option CellKind)
  /-- Removes a cell from the space that the address suggests unless one is named. -/
  | deleteCell (a : Address) (space : Option CellKind)
  | loadProgram (text : String)
  | setData (value : String)
  | resetMemory
  | setRegister (r : Register) (v : Value)

namespace Machine

/-- The least and the greatest of some addresses; 0 for none. -/
def span (placed : List Address) : Address × Address :=
  match placed with
  | [] => (0, 0)
  | a :: rest => (rest.foldl min a, rest.foldl max a)

/-- The report of a program placed at some addresses. -/
def loadedMessage (placed : List Address) : String :=
  let (least, greatest) := span placed
  "Loaded " ++ Nat.repr placed.length ++ " instruction(s) to memory at " ++ addressText least
    ++ "..=" ++ addressText greatest ++ "."

/-- Applies an edit; some edits have a message to report. -/
def apply (m : Machine) : Edit → Machine × Option String
  | .setCell a text kind =>
    ({ m with memory := m.memory.set a (Text.trim text) (kind.getD (Memory.kindAt a)) }, none)
  | .deleteCell a space =>
    ({ m with memory := m.memory.delete (space.getD (Memory.kindAt a)) a }, none)
  | .loadProgram text =>
    let (memory, placed) := m.memory.loadProgram text
    ({ m with memory }, if placed.isEmpty then none else some (loadedMessage placed))
  | .setData value =>
    let (memory, placed) := m.memory.setData value
    ({ m with memory }, placed.map fun a =>
      "Direct memory set -> memory[" ++ addressText a ++ "] = " ++ Text.trim value)
  | .resetMemory =>
    ({ m with memory := m.memory.resetDefaults }, some "Memory reset to default entries.")
  | .setRegister r v => ({ m with registers := m.registers.set r v }, none)

end Machine

end ToyCpu
