import ToyCpu.Decimal.Numeral
import ToyCpu.Session.Interact

/-!
# Commands of the interactive mode

* `Command` — what a line of input asks for.
* `Command.parse` — the command on a line.
* `Command.turn` — what the host does for a command.
-/

namespace ToyCpu

/-- A line of input. -/
inductive Command where
  /-- Operates a controller. -/
  | control (c : Control)
  /-- Tells the user something. -/
  | reply (line : String)
  /-- Stops the run and ends the input. -/
  | quit
  | nothing

namespace Command

/-- The list of commands. -/
def helpText : String :=
  "commands: p (play/pause), play, pause, stop, load LINE[;LINE..], "
    ++ "data VALUE, set ADDR TEXT, del ADDR, reg R VALUE, reset, quit"

/-- An address written with decimal digits, after an optional plus. -/
def address? (text : String) : Option Address :=
  let digits := match text.toList with
    | '+' :: rest => rest
    | cs => cs
  match radixNatural? 10 digits with
  | some n => if n < 2 ^ 32 then some (UInt32.ofNat n) else none
  | none => none

/-- The command that an edit is. -/
def edit (e : Edit) : Command := control (.send (.edit e))

/-- The lines of a program that are written on one line with semicolons between them. -/
def programText (text : String) : String :=
  String.ofList (text.toList.map fun c => if c == ';' then '\n' else c)

/-- `set ADDR TEXT` -/
def parseSet (rest : String) : Command :=
  match Text.cutAtBlank rest with
  | none => reply "usage: set ADDR TEXT"
  | some (addr, text) =>
    match address? addr with
    | some a => edit (.setCell a text none)
    | none => reply ("bad address: " ++ addr)

/-- `del ADDR` -/
def parseDelete (rest : String) : Command :=
  match address? rest with
  | some a => edit (.deleteCell a none)
  | none => reply ("bad address: " ++ rest)

/-- `reg R VALUE` -/
def parseRegister (rest : String) : Command :=
  match Text.cutAtBlank rest with
  | none => reply "usage: reg R VALUE"
  | some (name, value) =>
    match Register.ofToken? name with
    | some r => edit (.setRegister r (Value.parse (Text.trim value)))
    | none => reply ("not a register: " ++ name)

/-- The command on a line: its first word, and what follows that. -/
def parse (line : String) : Command :=
  let trimmed := Text.trim line
  let (name, rest) := (Text.cutAtBlank trimmed).getD (trimmed, "")
  let rest := Text.trim rest
  match name with
  | "" => nothing
  | "p" | "toggle" => control .toggle
  | "play" => control .play
  | "pause" => control .pause
  | "stop" => control .stop
  | "load" => edit (.loadProgram (programText rest))
  | "data" => edit (.setData rest)
  | "set" => parseSet rest
  | "del" => parseDelete rest
  | "reg" => parseRegister rest
  | "reset" => edit .resetMemory
  | "quit" | "q" => quit
  | "help" | "?" => reply helpText
  | other => reply ("unknown command: " ++ other)

/-- What the host does for a command. -/
def turn : Command → Turn
  | control c => { controls := [c] }
  | reply line => { said := [line] }
  | quit => { controls := [.stop, .release] }
  | nothing => {}

/-- What the host does for the lines of its input. -/
def turns (lines : List String) : List Turn := lines.map fun line => (parse line).turn

end Command

end ToyCpu
