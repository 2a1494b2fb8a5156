import ToyCpu.Json.Parser
import ToyCpu.Json.Printer
import ToyCpu.Machine
import ToyCpu.Memory.Names
import ToyCpu.Snapshot.Scalar

/-!
# Snapshots

A machine saved as JSON, under the name of its memory's layout.

* `Machine.toJson`, `Machine.ofJson?` — a machine as a tree.
* `Snapshot.save`, `Snapshot.load?` — a machine as a text.
-/

namespace ToyCpu

open Json (Source fields? nullable?)

/-! ### Writing -/

/-- A cell as JSON. -/
def Cell.toJson (cell : Cell) : Json :=
  .record [("text", .ofText cell.text), ("kind", .ofText cell.kind.name)]

/-- The cells of a space as JSON, with their addresses as keys. -/
def AddressMap.toJson (cells : AddressMap Cell) : Json :=
  .object (cells.entries.map fun (a, cell) => (Nat.toDigits 10 a.toNat, cell.toJson))

/-- A memory as JSON. The layout is not a part of it. -/
def Memory.toJson (mem : Memory) : Json :=
  match mem.spaces with
  | .unified cells =>
    .record [("cells", cells.toJson), ("load_policy", .ofText mem.policy.name)]
  | .split instructions data =>
    .record [("instructions", instructions.toJson), ("data", data.toJson),
      ("load_policy", .ofText mem.policy.name)]

/-- The register file as JSON. -/
def Registers.toJson (regs : Registers) : Json :=
  .record [
    ("general", .array [regs.r1.toJson, regs.r2.toJson, regs.r3.toJson]),
    ("ir", .ofText regs.ir),
    ("mar", match regs.mar with | none => .null | some a => .ofNat a.toNat),
    ("mdr", .ofText regs.mdr),
    ("acc", match regs.acc with | none => .null | some v => v.toJson)]

/-- A machine as JSON. -/
def Machine.toJson (m : Machine) : Json :=
  .record [("registers", m.registers.toJson), ("pc", .ofNat m.pc.toNat),
    ("memory", m.memory.toJson), ("instructions_started", .ofNat m.started.toNat)]

/-! ### Reading -/

/-- The cell that JSON says. -/
def Cell.ofJson? (source : Source) (j : Json) : Option Cell := do
  let fields ← fields? ["text", "kind"] j
  let text ← (fields "text").required Json.text?
  let kind ← (fields "kind").required (Json.choice? CellKind.names source)
  return ⟨text, kind⟩

/-- The address that a key says. Keys are numbers only straight from a text. -/
def keyAddress? (source : Source) (key : List Char) : Option Address :=
  if source = .direct then addressOfJson? (.number key) else none

/-- The cells that JSON says; of two at one address the later counts. -/
def AddressMap.ofJson? (source : Source) : Json → Option (AddressMap Cell)
  | .object members => do
    let entries ← members.mapM fun (key, value) => do
      let a ← keyAddress? source key
      let cell ← Cell.ofJson? source value
      return (a, cell)
    return .ofList entries
  | _ => none

/-- The memory of a layout that JSON says. -/
def Memory.ofJson? (arch : Architecture) (source : Source) (j : Json) : Option Memory :=
  match arch with
  | .unified => do
    let fields ← fields? ["cells", "load_policy"] j
    let cells ← (fields "cells").required (AddressMap.ofJson? source)
    let policy ← (fields "load_policy").required (Json.choice? LoadPolicy.names source)
    return ⟨.unified cells, policy⟩
  | .split => do
    let fields ← fields? ["instructions", "data", "load_policy"] j
    let instructions ← (fields "instructions").required (AddressMap.ofJson? source)
    let data ← (fields "data").required (AddressMap.ofJson? source)
    let policy ← (fields "load_policy").required (Json.choice? LoadPolicy.names source)
    return ⟨.split instructions data, policy⟩

/-- The values of the general registers that JSON says. -/
def generalOfJson? : Json → Option (Value × Value × Value)
  | .array [a, b, c] => do return (← Value.ofJson? a, ← Value.ofJson? b, ← Value.ofJson? c)
  | _ => none

/-- The register file that JSON says. -/
def Registers.ofJson? (j : Json) : Option Registers := do
  let fields ← fields? ["general", "ir", "mar", "mdr", "acc"] j
  let (r1, r2, r3) ← (fields "general").required generalOfJson?
  let ir ← (fields "ir").required Json.text?
  let mar ← (fields "mar").optional addressOfJson?
  let mdr ← (fields "mdr").required Json.text?
  let acc ← (fields "acc").optional Value.ofJson?
  return { r1, r2, r3, ir, mar, mdr, acc }

/-- The machine with a memory of the given layout that JSON says. A count that is left out
is 0. -/
def Machine.ofJson? (arch : Architecture) (source : Source) (j : Json) : Option Machine := do
  let fields ← fields? ["registers", "pc", "memory", "instructions_started"] j
  let registers ← (fields "registers").required Registers.ofJson?
  let pc ← (fields "pc").required addressOfJson?
  let memory ← (fields "memory").required (Memory.ofJson? arch source)
  let started ← (fields "instructions_started").orElse 0 countOfJson?
  return { registers, pc, memory, started }

/-! ### Snapshots -/

namespace Snapshot

/-- A machine under its layout's name, as JSON. -/
def toJson (m : Machine) : Json :=
  .record [("architecture", .ofText m.memory.architecture.name), ("machine", m.toJson)]

/-- The machine that a snapshot holds. The layout comes first; where the machine comes first
it is set aside until the layout is known. -/
def ofJson? : Json → Option Machine
  | .array [arch, machine] => do
    Machine.ofJson? (← Json.choice? Architecture.names .direct arch) .direct machine
  | .object members => do
    let entries ← Json.keyed? members
    match entries.filter fun (key, _) => key == "architecture" || key == "machine" with
    | [("architecture", arch), ("machine", machine)] =>
      Machine.ofJson? (← Json.choice? Architecture.names .direct arch) .direct machine
    | [("machine", machine), ("architecture", arch)] =>
      if machine.isSound (Json.depthLimit - 1) then
        Machine.ofJson? (← Json.choice? Architecture.names .direct arch) .setAside machine
      else none
    | _ => none
  | _ => none

/-- The text of a machine's snapshot. -/
def save (m : Machine) : String := (toJson m).pretty

/-- The machine that a text was saved from. -/
def load? (text : String) : Option Machine := (Json.parse? text).bind ofJson?

end Snapshot

end ToyCpu
