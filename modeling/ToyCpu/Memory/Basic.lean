import ToyCpu.Memory.AddressMap

/-!
# Memory

Addressable cells behind the interpreter, in one of two layouts. A unified
memory keeps instructions and data in one space, told apart only by a tag. A
split memory keeps two spaces; an address in one says nothing about the other.

* `Cell`, `CellKind`, `LoadPolicy`, `Architecture` — the parts.
* `Memory` — the spaces of a layout, and how programs are loaded into them.
* `get?`, `set`, `delete`, `cells`, `listing` — single cells and all of them.
* `fetch?`, `read?`, `store`, `nextInstruction?` — what the interpreter uses.
-/

namespace ToyCpu

/-- What a cell was written as. -/
inductive CellKind where
  | instruction
  | data
  deriving DecidableEq, Repr

/-- A text at an address. -/
structure Cell where
  text : String
  kind : CellKind
  deriving DecidableEq, Repr

/-- Anything with an ASCII letter in it is taken to be an instruction. -/
def Cell.looksLikeInstruction (cell : Cell) : Bool :=
  cell.text.toList.any Char.isAlpha

/-- Where a program's lines go. -/
inductive LoadPolicy where
  /-- Each line goes to the next free instruction address. -/
  | append
  /-- The instructions are cleared and refilled from the entry address. -/
  | overwrite
  deriving DecidableEq, Repr

/-- The two memory layouts. -/
inductive Architecture where
  | unified
  | split
  deriving DecidableEq, Repr

/-- The first address of the data range. -/
def dataBase : Address := 1000

/-- The spaces of a memory. -/
inductive Spaces where
  /-- One space for instructions and data. -/
  | unified (cells : AddressMap Cell)
  /-- A space of instructions and one of data. -/
  | split (instructions data : AddressMap Cell)

/-- A memory: its spaces and its load policy. -/
structure Memory where
  spaces : Spaces
  policy : LoadPolicy

/-- How programs are loaded when nothing else is asked for. -/
def Architecture.defaultPolicy : Architecture → LoadPolicy
  | .unified => .append
  | .split => .overwrite

namespace Memory

/-- The memory of a layout without cells. -/
def empty : Architecture → Memory
  | .unified => ⟨.unified .empty, Architecture.unified.defaultPolicy⟩
  | .split => ⟨.split .empty .empty, Architecture.split.defaultPolicy⟩

/-- The layout of a memory. -/
def architecture (mem : Memory) : Architecture :=
  match mem.spaces with
  | .unified _ => .unified
  | .split _ _ => .split

/-- Where the program counter starts and where a stop sends it back. -/
def entry (mem : Memory) : Address :=
  match mem.spaces with
  | .unified _ => 1
  | .split _ _ => 0

/-- The space for cells of a kind; a unified memory has only one. -/
def space (mem : Memory) (kind : CellKind) : AddressMap Cell :=
  match mem.spaces, kind with
  | .unified cells, _ => cells
  | .split instructions _, .instruction => instructions
  | .split _ data, .data => data

/-- Changes the space for cells of a kind. -/
def modifySpace (mem : Memory) (kind : CellKind) (f : AddressMap Cell → AddressMap Cell) : Memory :=
  match mem.spaces, kind with
  | .unified cells, _ => { mem with spaces := .unified (f cells) }
  | .split instructions data, .instruction => { mem with spaces := .split (f instructions) data }
  | .split instructions data, .data => { mem with spaces := .split instructions (f data) }

/-! ### Single cells -/

/-- The cell at an address of a space. -/
def get? (mem : Memory) (kind : CellKind) (a : Address) : Option Cell :=
  (mem.space kind).get? a

/-- Writes a cell into the space for its kind. -/
def set (mem : Memory) (a : Address) (text : String) (kind : CellKind) : Memory :=
  mem.modifySpace kind (·.insert a ⟨text, kind⟩)

/-- Removes the cell at an address of a space. -/
def delete (mem : Memory) (kind : CellKind) (a : Address) : Memory :=
  mem.modifySpace kind (·.erase a)

/-- The cells of a space in ascending address order. -/
def cells (mem : Memory) (kind : CellKind) : List (Address × Cell) :=
  (mem.space kind).entries

/-- The cells of both kinds, the instructions first, each kind in ascending address order and
from its own space. -/
def listing (mem : Memory) : List (Address × Cell) :=
  (mem.cells .instruction).filter (·.2.kind == .instruction)
    ++ (mem.cells .data).filter (·.2.kind == .data)

/-- The kind of a cell that is written or deleted without naming one. -/
def kindAt (a : Address) : CellKind :=
  if dataBase ≤ a then .data else .instruction

/-! ### Free addresses -/

/-- The least free address of the data range. -/
def nextFreeData (mem : Memory) : Address :=
  (mem.space .data).firstGap dataBase

/-- The least free address for an instruction. In a unified memory it is the first gap below
the data range or, if there is none, the first one above. -/
def nextFreeInstruction (mem : Memory) : Address :=
  let gap := (mem.space .instruction).firstGap mem.entry
  match mem.spaces with
  | .unified cells => if gap < dataBase then gap else cells.firstGap dataBase
  | .split _ _ => gap

/-! ### Clearing -/

/-- Removes every cell. -/
def clear (mem : Memory) : Memory :=
  match mem.spaces with
  | .unified _ => { mem with spaces := .unified .empty }
  | .split _ _ => { mem with spaces := .split .empty .empty }

/-- Removes the instructions: in a unified memory the cells that are tagged so. -/
def clearInstructions (mem : Memory) : Memory :=
  match mem.spaces with
  | .unified cells =>
    { mem with spaces := .unified (cells.filter fun _ cell => cell.kind != .instruction) }
  | .split _ data => { mem with spaces := .split .empty data }

/-! ### What the interpreter uses -/

/-- The text of the instruction at an address. -/
def fetch? (mem : Memory) (pc : Address) : Option String :=
  (mem.get? .instruction pc).map (·.text)

/-- The text that loads and address operands read. -/
def read? (mem : Memory) (a : Address) : Option String :=
  (mem.get? .data a).map (·.text)

/-- Writes a text as data. -/
def store (mem : Memory) (a : Address) (text : String) : Memory :=
  mem.set a text .data

/-- The first address at or after `start` whose cell looks like an instruction; numbers in
between are passed over. -/
def nextInstruction? (mem : Memory) (start : Address) : Option Address :=
  ((mem.cells .instruction).find? fun e => start ≤ e.1 && e.2.looksLikeInstruction).map (·.1)

end Memory

end ToyCpu
