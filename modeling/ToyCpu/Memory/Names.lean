import ToyCpu.Memory.Basic

/-!
# Names

The names that layouts, load policies and kinds of cells have in files and on the command line.
-/

namespace ToyCpu

/-- The layouts by name. -/
def Architecture.names : List (String × Architecture) := [("unified", .unified), ("split", .split)]

/-- The load policies by name. -/
def LoadPolicy.names : List (String × LoadPolicy) := [("append", .append), ("overwrite", .overwrite)]

/-- The kinds of cells by name. -/
def CellKind.names : List (String × CellKind) := [("instruction", .instruction), ("data", .data)]

/-- The name of a layout. -/
def Architecture.name : Architecture → String
  | .unified => "unified"
  | .split => "split"

/-- The name of a load policy. -/
def LoadPolicy.name : LoadPolicy → String
  | .append => "append"
  | .overwrite => "overwrite"

/-- The name of a kind. -/
def CellKind.name : CellKind → String
  | .instruction => "instruction"
  | .data => "data"

end ToyCpu
