import ToyCpu.Memory.Basic

/-!
# Loading programs and data

* `Memory.loadProgram` — lines placed as the load policy says.
* `Memory.setData` — a value at the lowest free data address.
* `Memory.resetDefaults` — the seed program and the seed data.
-/

namespace ToyCpu.Memory

/-- Writes lines to ascending addresses from `a` on, up to the last address there is. -/
def placeFrom (mem : Memory) (a : Address) : List String → Memory × List Address
  | [] => (mem, [])
  | line :: rest =>
    let written := mem.set a line .instruction
    if a + 1 = 0 then (written, [a])
    else
      let (final, placed) := written.placeFrom (a + 1) rest
      (final, a :: placed)

/-- Writes each line to the address that is then the least free one. -/
def appendLines (mem : Memory) : List String → Memory × List Address
  | [] => (mem, [])
  | line :: rest =>
    let a := mem.nextFreeInstruction
    let (final, placed) := (mem.set a line .instruction).appendLines rest
    (final, a :: placed)

/-- Places the lines of a program and gives the addresses used. Lines are trimmed, blank ones
are left out, and a program without lines changes nothing. -/
def loadProgram (mem : Memory) (text : String) : Memory × List Address :=
  match Text.lines text, mem.policy with
  | [], _ => (mem, [])
  | lines, .overwrite => mem.clearInstructions.placeFrom mem.entry lines
  | lines, .append => mem.appendLines lines

/-- Puts a trimmed value at the lowest free data address, which it gives. A blank one is
ignored. -/
def setData (mem : Memory) (value : String) : Memory × Option Address :=
  let trimmed := Text.trim value
  if trimmed.isEmpty then (mem, none)
  else
    let a := mem.nextFreeData
    (mem.set a trimmed .data, some a)

/-! ### Defaults -/

/-- The program of a fresh memory. -/
def seedProgram : List String :=
  ["MOV R1, #5", "MOV R2, #10", "ADD R3, R1, R2", "SUB R1, R3, R2", "MUL R2, R1, R3",
    "DIV R3, R2, R1", "STORE R3, 1000"]

/-- The data of a fresh memory. -/
def seedData : List String := ["25", "50", "75", "100"]

/-- Writes texts of a kind to consecutive addresses. -/
def setAll (mem : Memory) (a : Address) (kind : CellKind) : List String → Memory
  | [] => mem
  | text :: rest => (mem.set a text kind).setAll (a + 1) kind rest

/-- Removes every cell and writes the seed program and the seed data. -/
def resetDefaults (mem : Memory) : Memory :=
  (mem.clear.setAll mem.entry .instruction seedProgram).setAll dataBase .data seedData

/-- A memory of a layout with the seed program and the seed data. -/
def seeded (arch : Architecture) : Memory := (empty arch).resetDefaults

end ToyCpu.Memory
