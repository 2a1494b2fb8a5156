import ToyCpu.CommandLine.Program

/-!
# The command line

Reads the files that the options name and, when interactive, the lines of input; runs
`Program.run`; then writes what it says, at the pace that the options ask for.
-/

namespace ToyCpu.Main

/-- How to use the program. -/
def usage : String :=
  "Step a toy CPU through its instruction cycle\n\n"
    ++ "Usage: toy-cpu [--arch unified|split] [--config FILE] [--load-policy append|overwrite]\n"
    ++ "  [--program FILE] [--data VALUE]... [--empty] [--instant] [--speed SPEED]\n"
    ++ "  [--json-trace] [--state FILE] [--export FILE] [--interactive]"

/-- The text of a file, where there is a file and it holds text. -/
def readText (path : String) : IO (Option String) := do
  try
    let text ← IO.FS.readFile path
    return some text
  catch _ => return none

/-- The files that the options name. -/
def readFiles (o : Options) : IO Program.Files := do
  let paths := [o.config, o.state, o.program].filterMap id
  let contents ← paths.mapM fun path => do return (path, ← readText path)
  return fun path => (contents.lookup path).getD none

/-- The lines of the standard input up to its end. -/
partial def readLines : IO (List String) := do
  let line ← (← IO.getStdin).getLine
  if line.isEmpty then return []
  else return line :: (← readLines)

/-- Lets time pass. -/
def sleep (pace : Pace) (duration : Milliseconds) : IO Unit :=
  IO.sleep (duration.toFloat * pace.scale).toUInt32

/-- Writes one piece of output. -/
def write (pace : Pace) : Output → IO Unit
  | .result line => IO.println line
  | .remark line => IO.eprintln line
  | .pause duration => sleep pace duration

/-- Ends with an error. -/
def fail (e : HostError) : IO UInt32 := do
  IO.eprintln e.lastLine
  return 1

/-- Runs the program with the options. -/
def runOptions (o : Options) : IO UInt32 := do
  let files ← readFiles o
  let lines ← if o.interactive then readLines else pure []
  let report := Program.run o files lines
  match Pace.ofSpeed (o.speed.getD 1) with
  | .error e => fail e
  | .ok pace =>
    for piece in report.output do write pace piece
    match report.ending with
    | .done => return 0
    | .failed e => fail e
    | .saves path text =>
      try
        IO.FS.writeFile path text
        write pace (Program.savedLine path)
        return 0
      catch _ => fail .unreadable

end ToyCpu.Main

/-- The program. -/
def main (args : List String) : IO UInt32 := do
  match ToyCpu.Options.parse args with
  | .run o => ToyCpu.Main.runOptions o
  | .help =>
    IO.println ToyCpu.Main.usage
    return 0
  | .version =>
    IO.println "toy-cpu 0.1.0"
    return 0
  | .misused =>
    IO.eprintln ToyCpu.Main.usage
    return 2
