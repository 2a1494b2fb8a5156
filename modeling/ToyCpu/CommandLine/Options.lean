import ToyCpu.Decimal.Numeral
import ToyCpu.Memory.Names
import ToyCpu.Pace

/-!
# Options of the command line

* `Options` — what the arguments ask for.
* `Options.parse` — the options of a list of arguments.

An option's value is the next argument or follows an equals sign. The next argument is no
value if it begins with a minus, unless it is nothing but that. Each option may be given once,
except `--data`.
-/

namespace ToyCpu

/-- What the command line asks for. -/
structure Options where
  /-- The memory's layout. -/
  arch : Option Architecture := none
  /-- The file of the configuration. -/
  config : Option String := none
  policy : Option LoadPolicy := none
  /-- The file of a program to load. -/
  program : Option String := none
  /-- Values to put into data memory. -/
  data : List String := []
  /-- Start without the seed program and data. -/
  startsEmpty : Bool := false
  /-- Leave out the time between phases. -/
  instant : Bool := false
  speed : Option Float := none
  /-- Write the trace as JSON lines. -/
  jsonTrace : Bool := false
  /-- The file of a snapshot to start from. -/
  state : Option String := none
  /-- The file for a snapshot of the end. -/
  exportTo : Option String := none
  /-- Take commands while the program runs. -/
  interactive : Bool := false

/-- What a list of arguments comes to. -/
inductive Invocation where
  | run (options : Options)
  | help
  | version
  | misused

namespace Options

/-- Sets an option that may be given once. -/
def once {α : Type} (old : Option α) (new : Option α) : Option (Option α) :=
  if old.isSome then none else new.map some

/-- Sets a flag that may be given once. -/
def flagOnce (old : Bool) : Option Bool :=
  if old then none else some true

/-- The name of a file, which is not empty. -/
def fileName? (value : String) : Option String :=
  if value.isEmpty then none else some value

/-- A speed within the range that there is. -/
def speed? (value : String) : Option Float :=
  match Numeral.ofChars? value.toList with
  | none => none
  | some numeral => if Pace.allows numeral.toFloat then some numeral.toFloat else none

/-- The options with one that takes no value; `none` if there is no such option or it is
already set. -/
def setFlag? (o : Options) : String → Option Options
  | "empty" => do return { o with startsEmpty := ← flagOnce o.startsEmpty }
  | "instant" => do return { o with instant := ← flagOnce o.instant }
  | "json-trace" => do return { o with jsonTrace := ← flagOnce o.jsonTrace }
  | "interactive" => do return { o with interactive := ← flagOnce o.interactive }
  | _ => none

/-- The options with one that takes a value; `none` if there is no such option, it is already
set or the value is wrong. -/
def setValue? (o : Options) (name value : String) : Option Options :=
  match name with
  | "arch" => do return { o with arch := ← once o.arch (Architecture.names.lookup value) }
  | "config" => do return { o with config := ← once o.config (fileName? value) }
  | "load-policy" => do return { o with policy := ← once o.policy (LoadPolicy.names.lookup value) }
  | "program" => do return { o with program := ← once o.program (fileName? value) }
  | "data" => some { o with data := o.data ++ [value] }
  | "speed" => do return { o with speed := ← once o.speed (speed? value) }
  | "state" => do return { o with state := ← once o.state (fileName? value) }
  | "export" => do return { o with exportTo := ← once o.exportTo (fileName? value) }
  | _ => none

/-- The names of the options that take a value. -/
def valued : List String :=
  ["arch", "config", "load-policy", "program", "data", "speed", "state", "export"]

/-- An argument as an option: its name, and its value if an equals sign attaches one. -/
def split? (arg : String) : Option (String × Option String) :=
  match arg.toList with
  | '-' :: '-' :: rest =>
    let name := String.ofList (rest.takeWhile (· != '='))
    match rest.dropWhile (· != '=') with
    | [] => some (name, none)
    | _ :: value => some (name, some (String.ofList value))
  | _ => none

/-- An argument that can be the value of the option before it. -/
def isValue (arg : String) : Bool :=
  arg == "-" || arg.toList.head? != some '-'

/-- The options with those of the arguments added. -/
def addAll (o : Options) : List String → Invocation
  | [] => .run o
  | "--" :: rest => if rest.isEmpty then .run o else .misused
  | "-h" :: _ => .help
  | "-V" :: _ => .version
  | "--help" :: _ => .help
  | "--version" :: _ => .version
  | arg :: rest =>
    match split? arg with
    | none => .misused
    | some (name, some value) =>
      match o.setValue? name value with
      | some o => o.addAll rest
      | none => .misused
    | some (name, none) =>
      if valued.contains name then
        match rest with
        | value :: rest =>
          if isValue value then
            match o.setValue? name value with
            | some o => o.addAll rest
            | none => .misused
          else .misused
        | [] => .misused
      else
        match o.setFlag? name with
        | some o => o.addAll rest
        | none => .misused

/-- What a list of arguments asks for. -/
def parse (args : List String) : Invocation := addAll {} args

end Options

end ToyCpu
